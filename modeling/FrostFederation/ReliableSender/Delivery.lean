/-
# FrostFederation.ReliableSender.Delivery — does an acknowledged message reach the application?

`handle_connection_message` writes the acknowledgement first and puts the message into the client
channel afterwards.  Between the two awaits the other side may run, and the second one may fail with
its result only logged.  So an `Ok` at one side does not mean that the application of the other side
has the message.

It does in ORDERLY runs: every `client_tx.send` succeeds, and no acknowledgement is processed while
the other side stands between its two awaits.  The argument follows one acknowledgement backwards.
It was written by a step that received the data frame; the next event of that task can only be the
message going up; and that event lies before the acknowledgement is processed.
-/
import FrostFederation.ReliableSender.Pair

namespace FrostFederation.ReliableSender

open FrostFederation.Lib
open FrostFederation.Protocol

/-! ## One task: what follows an acknowledgement -/

/-- A step in which no `client_tx.send` fails. -/
def Event.clientTakes (e : Event) : Bool :=
  e.effects.all fun
    | .clientSend _ ok => ok
    | _ => true

/-- A step that processes an acknowledgement. -/
def Event.acknowledges (e : Event) : Bool :=
  match e.command with
  | .network (.ack _) => true
  | _ => false

namespace SenderTask

/-- The frame `message` under `n` was received, and the task's next event was `client_tx.send` of the
message, which returned `Ok`. -/
def PassedOn (tr : List Event) (message : Message) (n : UInt64) : Prop :=
  ∃ pre e e' post, tr = pre ++ e :: e' :: post ∧ e.command = .network (.send message n) ∧
    e'.effects = [.clientSend message true]

section Task

variable {tr : List Event} {t t' : SenderTask} {e : Event} {n : UInt64} {message : Message}

theorem PassedOn.append (h : PassedOn tr message n) (later : List Event) :
    PassedOn (tr ++ later) message n := by
  rcases h with ⟨pre, e, e', post, rfl, hcmd, heff⟩
  exact ⟨pre, e, e', post ++ later, by simp, hcmd, heff⟩

/-- What was passed on was received. -/
theorem PassedOn.processed (h : PassedOn tr message n) : (message, n) ∈ processed tr := by
  rcases h with ⟨pre, e, e', post, rfl, hcmd, -⟩
  apply List.mem_filterMap.mpr
  refine ⟨e, by simp, ?_⟩
  show e.data? = some (message, n)
  rw [Event.data?, hcmd]
  rfl

/-- What was passed on is in the client channel. -/
theorem PassedOn.passed (h : PassedOn tr message n) : message ∈ passed tr := by
  rcases h with ⟨pre, e, e', post, rfl, -, heff⟩
  apply List.mem_flatMap.mpr
  refine ⟨e', by simp, ?_⟩
  rw [heff]
  exact List.mem_singleton.mpr rfl

/-- A step that hands an acknowledgement to the connection leaves the message to be passed up. -/
theorem suspended_of_ack (hst : Stepped t e t') (hack : .ack n ∈ e.accepted) :
    ∃ message, e.command = .network (.send message n) ∧ t'.suspended = some message := by
  obtain ⟨message, hdata⟩ := ack_of_stepped hst hack
  cases hst with
  | @received message' n' connected _ hcmd heff _ hsuspended =>
      have hframe : (message', n') = (message, n) := by
        rw [Event.data?, hcmd] at hdata
        exact Option.some.inj hdata
      obtain ⟨rfl, rfl⟩ := Prod.mk.inj hframe
      refine ⟨message', hcmd, ?_⟩
      cases connected with
      | false =>
          rw [Event.accepted, heff] at hack
          cases hack
      | true => exact hsuspended
  | sent _ hcmd => rw [Event.data?, hcmd] at hdata; cases hdata
  | acked _ hcmd => rw [Event.data?, hcmd] at hdata; cases hdata
  | ackUnknown _ hcmd => rw [Event.data?, hcmd] at hdata; cases hdata
  | passedUp _ hcmd => rw [Event.data?, hcmd] at hdata; cases hdata

/-- The only step of a suspended task is the message going up. -/
theorem clientSend_of_suspended (hst : Stepped t e t') (hsome : t.suspended = some message) :
    ∃ ok, e.effects = [.clientSend message ok] := by
  cases hst with
  | @passedUp message' ok hsome' _ heff =>
      obtain rfl : message' = message := Option.some.inj (hsome'.symm.trans hsome)
      exact ⟨ok, heff⟩
  | sent hidle => rw [hidle] at hsome; cases hsome
  | received hidle => rw [hidle] at hsome; cases hsome
  | acked hidle => rw [hidle] at hsome; cases hsome
  | ackUnknown hidle => rw [hidle] at hsome; cases hsome

/-- **A task that is not suspended has passed on every message it acknowledged**, if no client
channel failed it. -/
theorem passedOn_of_ack (hrun : machine.Run start tr t) (htakes : ∀ e ∈ tr, e.clientTakes = true)
    (hidle : t.suspended = none) (he : e ∈ tr) (hack : .ack n ∈ e.accepted) :
    ∃ message, PassedOn tr message n := by
  obtain ⟨pre, post, rfl⟩ := List.append_of_mem he
  obtain ⟨s₁, i, s₂, -, hs, -, hrest⟩ := hrun.around
  obtain ⟨message, hcmd, hsome⟩ := suspended_of_ack (stepped_of_step hs) hack
  cases post with
  | nil =>
      -- the acknowledgement was the last event, so the task still holds the message
      cases hrest.eq_of_nil
      rw [hsome] at hidle
      cases hidle
  | cons e' post =>
      obtain ⟨i', u₂, hs', -, -⟩ := hrest.of_cons
      obtain ⟨ok, heff⟩ := clientSend_of_suspended (stepped_of_step hs') hsome
      have hok : ok = true := by
        have htaken := htakes e' (by simp)
        rw [Event.clientTakes, heff] at htaken
        simpa using htaken
      rw [hok] at heff
      exact ⟨message, pre, e, e', post, rfl, hcmd, heff⟩

end Task

end SenderTask

namespace Pair

variable {G : Pair → PairEvent → Prop} {tr : List PairEvent} {p p' : Pair} {pe : PairEvent}
  {s side : Side} {e : Event} {n : UInt64}

/-! ## Orderly runs -/

/-- A step in which no client channel fails, and no acknowledgement is processed while the other
side stands between acknowledging a message and passing it up. -/
def orderly (p : Pair) : PairEvent → Bool
  | .own side e | .delivered side _ e =>
      e.clientTakes && (!e.acknowledges || (p.task side.other).suspended.isNone)
  | .lost _ _ => true

theorem orderly_of_at? (hG : orderly p pe = true) (hat : pe.at? s = some e) :
    e.clientTakes = true ∧ (∀ n, e.IsAck n → (p.task s.other).suspended = none) := by
  have hstep : (e.clientTakes && (!e.acknowledges || (p.task s.other).suspended.isNone)) = true := by
    rcases PairEvent.at?_eq_some.mp hat with rfl | ⟨index, rfl⟩ <;> exact hG
  obtain ⟨htakes, hack⟩ := Bool.and_eq_true_iff.mp hstep
  refine ⟨htakes, ?_⟩
  intro n hn
  rw [Event.acknowledges, hn] at hack
  simpa using hack

/-- A side processes an acknowledgement that was under way to it. -/
theorem ack_of_moved (hmoved : Moved p pe p') (hat : pe.at? s = some e) (hack : e.IsAck n) :
    .ack n ∈ p.link s := by
  cases hmoved with
  | own hpe _ hcmd =>
      rcases PairEvent.at?_eq_some.mp hat with h | ⟨index, h⟩ <;> cases hpe.symm.trans h
      exact absurd hack (hcmd _)
  | @delivered side index frame i e' hpe hframe _ hcmd =>
      rcases PairEvent.at?_eq_some.mp hat with h | ⟨index, h⟩ <;> cases hpe.symm.trans h
      obtain rfl : frame = .ack n := Command.network.inj (hcmd.symm.trans hack)
      exact List.mem_of_getElem? hframe
  | lost hpe =>
      rcases PairEvent.at?_eq_some.mp hat with h | ⟨index, h⟩ <;> cases hpe.symm.trans h

/-- What is under way to a side was written by the other one. -/
theorem accepted_of_link (hrun : machine.RunWith G start tr p) {frame : ReliableNetworkMessage}
    (hframe : frame ∈ p.link s) : ∃ e ∈ events s.other tr, frame ∈ e.accepted := by
  induction hrun generalizing s with
  | nil => cases hframe
  | @snoc tr q q' i pe _ hs _ ih =>
      -- a frame that was there before has its event already, a new one is in the last event
      have hbefore : frame ∈ q.link s → ∃ e ∈ events s.other (tr ++ [pe]), frame ∈ e.accepted := by
        intro h
        obtain ⟨e, he, hacc⟩ := ih h
        refine ⟨e, ?_, hacc⟩
        rw [events_snoc]
        exact List.mem_append_left _ he
      have hwritten : ∀ {side e}, (pe = .own side e ∨ ∃ index, pe = .delivered side index e) →
          q'.link side.other = q.link side.other ++ e.accepted → s = side.other →
          ∃ e ∈ events s.other (tr ++ [pe]), frame ∈ e.accepted := by
        rintro side e hpe hother rfl
        rw [hother] at hframe
        rcases List.mem_append.mp hframe with hold | hnew
        · exact hbefore hold
        · refine ⟨e, ?_, hnew⟩
          rw [Side.other_other, (events_of_side tr hpe).1]
          exact List.mem_append_right _ (List.mem_singleton.mpr rfl)
      cases moved_of_step hs with
      | @own side i e hpe hs' _ _ hlink hother =>
          rcases s.eq_or_eq_other side with rfl | hs_other
          · rw [hlink] at hframe
            exact hbefore hframe
          · exact hwritten (Or.inl hpe) hother hs_other
      | @delivered side index frame' i e hpe _ hs' _ _ hlink hother =>
          rcases s.eq_or_eq_other side with rfl | hs_other
          · rw [hlink] at hframe
            exact hbefore (List.mem_of_mem_eraseIdx hframe)
          · exact hwritten (Or.inr ⟨index, hpe⟩) hother hs_other
      | @lost side index hpe _ hlink hother =>
          rcases s.eq_or_eq_other side with rfl | rfl
          · rw [hlink] at hframe
            exact hbefore (List.mem_of_mem_eraseIdx hframe)
          · rw [hother] at hframe
            exact hbefore hframe

/-- In an orderly run no event of a side has a failing client channel. -/
theorem clientTakes_of_run (hrun : machine.RunWith (fun p pe => orderly p pe = true) start tr p) :
    ∀ e ∈ events s tr, e.clientTakes = true := by
  induction hrun with
  | nil =>
      intro e he
      cases he
  | @snoc tr q q' i pe _ _ hG ih =>
      intro e he
      rw [events_snoc] at he
      rcases List.mem_append.mp he with hold | hlast
      · exact ih e hold
      · exact (orderly_of_at? hG (Option.mem_toList.mp hlast)).1

/-- Every acknowledgement a side has processed is for a message the other side has passed on. -/
theorem passedOn_of_isAck (hrun : machine.RunWith (fun p pe => orderly p pe = true) start tr p)
    (he : e ∈ events s tr) (hack : e.IsAck n) :
    ∃ message, SenderTask.PassedOn (events s.other tr) message n := by
  induction hrun with
  | nil => cases he
  | @snoc tr q q' i pe hprev hs hG ih =>
      rw [events_snoc] at he ⊢
      rcases List.mem_append.mp he with hold | hlast
      · obtain ⟨message, hpassed⟩ := ih hold
        exact ⟨message, hpassed.append _⟩
      -- the acknowledgement is processed now: it was under way, and its writer is not suspended
      have hat : pe.at? s = some e := Option.mem_toList.mp hlast
      have hunderway : .ack n ∈ q.link s := ack_of_moved (moved_of_step hs) hat hack
      obtain ⟨e₀, he₀, hacc⟩ := accepted_of_link hprev hunderway
      obtain ⟨message, hpassed⟩ := SenderTask.passedOn_of_ack (run_events hprev s.other)
        (clientTakes_of_run hprev) ((orderly_of_at? hG hat).2 n hack) he₀ hacc
      exact ⟨message, hpassed.append _⟩

/-! ## Acknowledged means delivered, in orderly runs -/

/-- Whoever was answered `Ok` had that very message put into the client channel of the other side. -/
def Delivered (tr : List PairEvent) : Prop :=
  ∀ s post n message tx, SenderTask.Assigned (events s tr) post n message tx →
    .ok () ∈ SenderTask.answers (events s tr) tx →
    SenderTask.PassedOn (events s.other tr) message n

/-- **In an orderly run an acknowledged message has reached the peer's application.** -/
theorem delivered_of_orderly (hrun : machine.RunWith (fun p pe => orderly p pe = true) start tr p)
    (hlen : ∀ s, (SenderTask.sends (events s tr)).length < 2 ^ 64) : Delivered tr := by
  intro s post n message tx hassigned hok
  obtain ⟨e, he, hack⟩ :=
    SenderTask.isAck_of_ok (run_events hrun s) (hlen s) hassigned hok
  obtain ⟨message', hpassed⟩ := passedOn_of_isAck hrun he hack
  have hsame : message = message' :=
    message_of_processed hrun.run hlen hassigned hpassed.processed
  rw [hsame]
  exact hpassed

/-- The message goes up before its acknowledgement is processed. -/
def passedFirst : List PairInput :=
  [.send .left (.package "a" "hello" 1) true, .deliver .right 0 true, .passUp .right true,
   .deliver .left 0 true]

theorem delivered_of_orderly_passedFirst :
    ∃ tr p, machine.execWith orderly start passedFirst = some (p, tr) ∧
      (∀ s, (SenderTask.sends (events s tr)).length < 2 ^ 64) ∧
      SenderTask.answers (events .left tr) 0 = [.ok ()] ∧ Delivered tr := by
  have hexec : machine.execWith orderly start passedFirst = some (_, _) := rfl
  refine ⟨_, _, hexec, ?_, by decide, ?_⟩
  · intro s
    cases s <;> decide
  · apply delivered_of_orderly (Machine.runWith_of_execWith hexec)
    intro s
    cases s <;> decide

/-- The acknowledgement is processed first, and the client of the receiver is gone. -/
def ackedFirst : List PairInput :=
  [.send .left (.package "a" "hello" 1) true, .deliver .right 0 true, .deliver .left 0 true,
   .passUp .right false]

/-- The sender is told `Ok`, nothing was lost, and the message is in no client channel: not when the
answer is given, and not later. -/
theorem undelivered_ackedFirst :
    ∃ tr p, machine.exec start ackedFirst = some (p, tr) ∧ (∀ s, p.link s = []) ∧
      SenderTask.answers (events .left (tr.take 3)) 0 = [.ok ()] ∧
      ¬ Delivered (tr.take 3) ∧ ¬ Delivered tr := by
  have hexec : machine.exec start ackedFirst = some (_, _) := rfl
  refine ⟨_, _, hexec, ?_, by decide, ?_, ?_⟩
  · intro s
    cases s <;> rfl
  · intro hdelivered
    have hpassed := hdelivered .left _ 1 (.package "a" "hello" 1) 0 ⟨[], _, rfl, rfl, rfl⟩ (by decide)
    exact absurd hpassed.passed (by decide)
  · intro hdelivered
    have hpassed := hdelivered .left _ 1 (.package "a" "hello" 1) 0 ⟨[], _, rfl, rfl, rfl⟩ (by decide)
    exact absurd hpassed.passed (by decide)

end Pair

end FrostFederation.ReliableSender
