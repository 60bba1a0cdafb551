/-
# FrostFederation.ReliableSender.Exact — the books of the reliable sender are exact.

Against any peer: acknowledgements may be repeated, reordered, invented, or sent before the number
they name has been given out.  The history of a run says which numbers were ASSIGNED, to which
message and waiter, and which of them are WAITING, that is, have seen no acknowledgement since.  The
map of the actor is that history (`Books.held`), and an `Ok` is given exactly at an acknowledgement
of a waiting number, to its own waiter.

All of it rests on numbers not being given out twice, so it holds for runs with fewer than 2^64 sends.
-/
import Mathlib.Algebra.Group.Nat.Defs
import FrostFederation.ReliableSender.Actor

namespace FrostFederation.ReliableSender

open FrostFederation.Lib
open FrostFederation.Protocol

/-! ## The history of a run -/

/-- The message and the waiter of a client's Send. -/
def Event.sent? (e : Event) : Option (Message × Oneshot) :=
  match e.command with
  | .send message tx => some (message, tx)
  | _ => none

/-- The step processed an acknowledgement of `n`. -/
def Event.IsAck (e : Event) (n : UInt64) : Prop := e.command = .network (.ack n)

/-- The answer an effect gives on the channel `tx`. -/
def Effect.answer? (tx : Oneshot) : Effect → Option ConnectionResult
  | .respond tx' result => if tx' = tx then some result else none
  | _ => none

namespace SenderTask

/-- The client Sends of a run, in order. -/
def sends (tr : List Event) : List (Message × Oneshot) := tr.filterMap Event.sent?

/-- The number of the next Send: the Sends of a run are counted from 1. -/
def number (tr : List Event) : UInt64 := UInt64.ofNat ((sends tr).length + 1)

/-- The answers given on `tx` along a run. -/
def answers (tr : List Event) (tx : Oneshot) : List ConnectionResult :=
  tr.flatMap fun e => e.effects.filterMap (Effect.answer? tx)

/-- The number `n` was assigned to `message` and its waiter `tx`, and `post` happened since. -/
def Assigned (tr post : List Event) (n : UInt64) (message : Message) (tx : Oneshot) : Prop :=
  ∃ pre e, tr = pre ++ e :: post ∧ e.command = .send message tx ∧ n = number pre

/-- No acknowledgement of `n` among these steps. -/
def Unacked (n : UInt64) (post : List Event) : Prop := ∀ e ∈ post, ¬ e.IsAck n

/-- The number was assigned, and no acknowledgement of it was processed since. -/
def Waiting (tr : List Event) (n : UInt64) (message : Message) (tx : Oneshot) : Prop :=
  ∃ post, Assigned tr post n message tx ∧ Unacked n post

section History

variable {tr post : List Event} {e : Event} {n : UInt64} {message : Message} {tx : Oneshot}

theorem sends_snoc_send (hcmd : e.command = .send message tx) :
    sends (tr ++ [e]) = sends tr ++ [(message, tx)] := by
  simp [sends, Event.sent?, hcmd]

theorem sends_snoc_other (hcmd : ∀ message tx, e.command ≠ .send message tx) :
    sends (tr ++ [e]) = sends tr := by
  have hnone : e.sent? = none := by
    unfold Event.sent?
    split
    · next h => exact absurd h (hcmd _ _)
    · rfl
  simp [sends, hnone]

theorem answers_snoc : answers (tr ++ [e]) tx =
    answers tr tx ++ e.effects.filterMap (Effect.answer? tx) := by
  simp [answers]

/-- The answers of a run are the responses among its effects. -/
theorem mem_answers {result : ConnectionResult} :
    result ∈ answers tr tx ↔ ∃ e ∈ tr, Effect.respond tx result ∈ e.effects := by
  rw [answers, List.mem_flatMap]
  refine exists_congr fun e => and_congr_right fun _ => ?_
  rw [List.mem_filterMap]
  constructor
  · rintro ⟨effect, hmem, hanswer⟩
    cases effect with
    | respond tx' result' =>
        simp only [Effect.answer?, Option.ite_none_right_eq_some, Option.some.injEq] at hanswer
        obtain ⟨rfl, rfl⟩ := hanswer
        exact hmem
    | connectionSend => cases hanswer
    | clientSend => cases hanswer
    | drop => cases hanswer
  · intro hmem
    exact ⟨_, hmem, by simp [Effect.answer?]⟩

theorem not_assigned_nil : ¬ Assigned [] post n message tx := by
  rintro ⟨pre, e, h, -⟩
  simp at h

/-- An assignment of a longer run is its last step or an assignment of the shorter one. -/
theorem assigned_snoc : Assigned (tr ++ [e]) post n message tx ↔
    (post = [] ∧ e.command = .send message tx ∧ n = number tr) ∨
      ∃ post', post = post' ++ [e] ∧ Assigned tr post' n message tx := by
  constructor
  · rintro ⟨pre, e', heq, hcmd, hn⟩
    rcases List.eq_nil_or_concat post with rfl | ⟨post', last, rfl⟩
    · obtain ⟨rfl, hlast⟩ := List.append_inj' heq rfl
      obtain rfl : e = e' := List.head_eq_of_cons_eq hlast
      exact Or.inl ⟨rfl, hcmd, hn⟩
    · have hsplit : tr ++ [e] = (pre ++ e' :: post') ++ [last] := by simpa using heq
      obtain ⟨rfl, hlast⟩ := List.append_inj' hsplit rfl
      obtain rfl : e = last := List.head_eq_of_cons_eq hlast
      exact Or.inr ⟨post', by simp, pre, e', rfl, hcmd, hn⟩
  · rintro (⟨rfl, hcmd, hn⟩ | ⟨post', rfl, pre, e', rfl, hcmd, hn⟩)
    · exact ⟨tr, e, rfl, hcmd, hn⟩
    · exact ⟨pre, e', by simp, hcmd, hn⟩

theorem unacked_snoc : Unacked n (post ++ [e]) ↔ Unacked n post ∧ ¬ e.IsAck n := by
  simp [Unacked, or_imp, forall_and]

/-- A number waits after a step if the step assigned it, or if it waited before and the step did not
acknowledge it. -/
theorem waiting_snoc : Waiting (tr ++ [e]) n message tx ↔
    (e.command = .send message tx ∧ n = number tr) ∨
      (Waiting tr n message tx ∧ ¬ e.IsAck n) := by
  constructor
  · rintro ⟨post, hassigned, hunacked⟩
    rcases assigned_snoc.mp hassigned with ⟨-, hcmd, hn⟩ | ⟨post', rfl, hbefore⟩
    · exact Or.inl ⟨hcmd, hn⟩
    · obtain ⟨hpost', he⟩ := unacked_snoc.mp hunacked
      exact Or.inr ⟨⟨post', hbefore, hpost'⟩, he⟩
  · rintro (⟨hcmd, hn⟩ | ⟨⟨post', hbefore, hpost'⟩, he⟩)
    · refine ⟨[], assigned_snoc.mpr (Or.inl ⟨rfl, hcmd, hn⟩), ?_⟩
      intro e' he'
      cases he'
    · exact ⟨post' ++ [e], assigned_snoc.mpr (Or.inr ⟨post', rfl, hbefore⟩),
        unacked_snoc.mpr ⟨hpost', he⟩⟩

end History

/-! ## The books of a run -/

/-- What ties the actor to the history of its run. -/
structure Books (tr : List Event) (t : SenderTask) : Prop where
  counter : t.actor.sequenceNumber = UInt64.ofNat (sends tr).length
  opened : t.opened = (sends tr).length
  ticket : ∀ post n message (tx : Nat), Assigned tr post n message tx →
    n = UInt64.ofNat (tx + 1) ∧ tx < (sends tr).length
  held : ∀ n message tx, t.actor.waitingForAck.lookup n = some (message, tx) ↔
    Waiting tr n message tx
  unopened : ∀ tx : Nat, t.opened ≤ tx → answers tr tx = []
  once : ∀ post n message tx, Assigned tr post n message tx →
    (Unacked n post → answers tr tx = []) ∧ (¬ Unacked n post → answers tr tx = [.ok ()])

section Steps

variable {tr post : List Event} {t t' : SenderTask} {i : Input} {e : Event} {n : UInt64}
  {message : Message} {tx : Nat}

/-- Two small numbers that agree as `u64` are equal. -/
theorem ofNat_succ_inj {j k : Nat} (hj : j + 1 < 2 ^ 64) (hk : k + 1 < 2 ^ 64)
    (h : UInt64.ofNat (j + 1) = UInt64.ofNat (k + 1)) : j = k := by
  have hnat : (UInt64.ofNat (j + 1)).toNat = (UInt64.ofNat (k + 1)).toNat := by rw [h]
  rw [UInt64.toNat_ofNat_of_lt' hj, UInt64.toNat_ofNat_of_lt' hk] at hnat
  omega

/-- The actor's counter gives out the number of the next Send. -/
theorem Books.next_number (hb : Books tr t) : t.actor.sequenceNumber + 1 = number tr := by
  rw [hb.counter, number, UInt64.ofNat_add]
  rfl

/-- The number of the next Send is not in the map. -/
theorem Books.fresh (hb : Books tr t) (hlen : (sends tr).length + 1 < 2 ^ 64) :
    t.actor.waitingForAck.lookup (number tr) = none := by
  cases hl : t.actor.waitingForAck.lookup (number tr) with
  | none => rfl
  | some waiter =>
      obtain ⟨message, tx⟩ := waiter
      obtain ⟨post, hassigned, -⟩ := (hb.held _ message tx).mp hl
      obtain ⟨hn, htx⟩ := hb.ticket _ _ _ _ hassigned
      have heq : (sends tr).length = tx := ofNat_succ_inj hlen (by omega) hn
      omega

/-- The only answer is `Ok`, and it is given at an acknowledgement, to the waiter of its number. -/
theorem Stepped.of_respond {result : ConnectionResult} (hst : Stepped t e t')
    (h : Effect.respond tx result ∈ e.effects) :
    result = .ok () ∧ ∃ n message, t.actor.waitingForAck.lookup n = some (message, tx) ∧
      e.IsAck n := by
  cases hst with
  | sent _ _ heff =>
      rw [heff] at h
      rcases List.mem_append.mp h with hdrop | hsend
      · cases hl : t.actor.waitingForAck.lookup (t.actor.sequenceNumber + 1) <;>
          simp [hl] at hdrop
      · simp at hsend
  | received _ _ heff => simp [heff] at h
  | @acked n message tx' _ hcmd hheld heff =>
      rw [heff, List.mem_singleton] at h
      obtain ⟨rfl, rfl⟩ := Effect.respond.inj h
      exact ⟨rfl, n, message, hheld, hcmd⟩
  | ackUnknown _ _ _ heff => simp [heff] at h
  | passedUp _ _ heff => simp [heff] at h

/-- A step answers a waiter exactly when it processes an acknowledgement of a number that waits with
it. -/
theorem Books.answer_iff (hb : Books tr t) (hst : Stepped t e t') (result : ConnectionResult) :
    Effect.respond tx result ∈ e.effects ↔
      result = .ok () ∧ ∃ n message, Waiting tr n message tx ∧ e.IsAck n := by
  constructor
  · intro hmem
    obtain ⟨hok, n, message, hheld, hack⟩ := hst.of_respond hmem
    exact ⟨hok, n, message, (hb.held n message tx).mp hheld, hack⟩
  · rintro ⟨rfl, n, message, hwaiting, hack⟩
    have hl := (hb.held n message tx).mpr hwaiting
    cases hst with
    | sent _ hcmd => cases hcmd.symm.trans hack
    | received _ hcmd => cases hcmd.symm.trans hack
    | acked _ hcmd hheld heff =>
        cases hcmd.symm.trans hack
        obtain ⟨-, rfl⟩ := Prod.mk.inj (Option.some.inj (hheld.symm.trans hl))
        rw [heff]
        exact List.mem_singleton.mpr rfl
    | ackUnknown _ hcmd hheld =>
        cases hcmd.symm.trans hack
        cases hheld.symm.trans hl
    | passedUp _ hcmd => cases hcmd.symm.trans hack

/-- The answers of one step: one `Ok` if it acknowledges the waiter's number, and none otherwise. -/
theorem Books.answers_step (hb : Books tr t) (hst : Stepped t e t') (tx : Oneshot) :
    e.effects.filterMap (Effect.answer? tx) = [.ok ()] ∧
        (∃ n message, Waiting tr n message tx ∧ e.IsAck n) ∨
      e.effects.filterMap (Effect.answer? tx) = [] ∧
        ¬ ∃ n message, Waiting tr n message tx ∧ e.IsAck n := by
  by_cases hack : ∃ n message, Waiting tr n message tx ∧ e.IsAck n
  · have hmem := (hb.answer_iff hst (.ok ())).mpr ⟨rfl, hack⟩
    refine Or.inl ⟨?_, hack⟩
    obtain ⟨n, message, -, hcmd⟩ := hack
    cases hst with
    | sent _ hcmd' => cases hcmd'.symm.trans hcmd
    | received _ hcmd' => cases hcmd'.symm.trans hcmd
    | acked _ _ _ heff =>
        rw [heff, List.mem_singleton] at hmem
        obtain ⟨rfl, -⟩ := Effect.respond.inj hmem
        simp [heff, Effect.answer?]
    | ackUnknown _ _ _ heff => simp [heff] at hmem
    | passedUp _ hcmd' => cases hcmd'.symm.trans hcmd
  · refine Or.inr ⟨?_, hack⟩
    refine List.filterMap_eq_nil_iff.mpr fun effect heffect => ?_
    cases effect with
    | respond tx' result =>
        by_cases htx : tx' = tx
        · subst htx
          exact absurd ((hb.answer_iff hst result).mp heffect).2 hack
        · simp [Effect.answer?, htx]
    | connectionSend frame ok => rfl
    | clientSend message ok => rfl
    | drop tx' => rfl

/-- A number that was assigned before the step has been answered once or not at all after it. -/
theorem Books.once_step (hb : Books tr t) (hst : Stepped t e t')
    (hassigned : Assigned tr post n message tx) :
    (Unacked n (post ++ [e]) → answers (tr ++ [e]) tx = []) ∧
      (¬ Unacked n (post ++ [e]) → answers (tr ++ [e]) tx = [.ok ()]) := by
  rw [answers_snoc, unacked_snoc]
  obtain ⟨hbefore, hafter⟩ := hb.once _ _ _ _ hassigned
  rcases hb.answers_step hst tx with ⟨hans, n', message', hwaiting, hack⟩ | ⟨hans, hnot⟩
  · -- the acknowledged number is the waiter's own, and it was not acknowledged before
    obtain ⟨post', hassigned', hunacked'⟩ := hwaiting
    have hn : n' = n := by
      rw [(hb.ticket _ _ _ _ hassigned').1, (hb.ticket _ _ _ _ hassigned).1]
    subst hn
    have hnone : answers tr tx = [] := (hb.once _ _ _ _ hassigned').1 hunacked'
    rw [hnone, hans]
    exact ⟨fun h => absurd hack h.2, fun _ => rfl⟩
  · rw [hans, List.append_nil]
    refine ⟨fun h => hbefore h.1, fun h => hafter fun hunacked => h ⟨hunacked, fun hack => ?_⟩⟩
    exact hnot ⟨n, message, ⟨post, hassigned, hunacked⟩, hack⟩

/-- After a step that is not a Send the map holds what it held, less an acknowledged number. -/
theorem held_step (hst : Stepped t e t') (hcmd : ∀ message tx, e.command ≠ .send message tx)
    (n : UInt64) (waiter : AckWaiter) :
    t'.actor.waitingForAck.lookup n = some waiter ↔
      t.actor.waitingForAck.lookup n = some waiter ∧ ¬ e.IsAck n := by
  cases hst with
  | sent _ hcmd' => exact absurd hcmd' (hcmd _ _)
  | received _ hcmd' _ hactor => simp [hactor, Event.IsAck, hcmd']
  | @acked k message tx _ hcmd' _ _ hwaiting =>
      rw [hwaiting, HashMap.lookup_erase_eq_ite, Event.IsAck, hcmd']
      by_cases hk : n = k
      · simp [hk]
      · simp [hk, Ne.symm hk]
  | @ackUnknown k _ hcmd' hheld _ hactor =>
      rw [hactor, Event.IsAck, hcmd']
      by_cases hk : n = k
      · subst hk
        simp [hheld]
      · simp [Ne.symm hk]
  | passedUp _ hcmd' _ hactor => simp [hactor, Event.IsAck, hcmd']

/-- What a client's Send does to the task. -/
theorem Stepped.of_send (hst : Stepped t e t') (hcmd : e.command = .send message tx) :
    tx = t.opened ∧
      t'.actor.waitingForAck =
        t.actor.waitingForAck.insert (t.actor.sequenceNumber + 1) (message, t.opened) ∧
      t'.actor.sequenceNumber = t.actor.sequenceNumber + 1 ∧ t'.opened = t.opened + 1 := by
  cases hst with
  | sent _ hcmd' _ hwaiting hnumber _ hopened =>
      obtain ⟨rfl, rfl⟩ := Command.send.inj (hcmd.symm.trans hcmd')
      exact ⟨rfl, hwaiting, hnumber, hopened⟩
  | received _ hcmd' => cases hcmd'.symm.trans hcmd
  | acked _ hcmd' => cases hcmd'.symm.trans hcmd
  | ackUnknown _ hcmd' => cases hcmd'.symm.trans hcmd
  | passedUp _ hcmd' => cases hcmd'.symm.trans hcmd

/-- Every other step leaves the counters alone. -/
theorem Stepped.of_not_send (hst : Stepped t e t')
    (hcmd : ∀ message tx, e.command ≠ .send message tx) :
    t'.actor.sequenceNumber = t.actor.sequenceNumber ∧ t'.opened = t.opened := by
  cases hst with
  | sent _ hcmd' => exact absurd hcmd' (hcmd _ _)
  | received _ _ _ hactor _ hopened => exact ⟨by rw [hactor], hopened⟩
  | acked _ _ _ _ _ hnumber _ hopened => exact ⟨hnumber, hopened⟩
  | ackUnknown _ _ _ _ hactor _ hopened => exact ⟨by rw [hactor], hopened⟩
  | passedUp _ _ _ hactor _ hopened => exact ⟨by rw [hactor], hopened⟩

/-- The books after a client's Send. -/
theorem Books.send_step (hb : Books tr t) (hst : Stepped t e t')
    (hcmd : e.command = .send message tx) (hlen : (sends tr).length + 1 < 2 ^ 64) :
    Books (tr ++ [e]) t' := by
  obtain ⟨rfl, hwaiting, hnumber, hopened⟩ := hst.of_send hcmd
  have hsends : sends (tr ++ [e]) = sends tr ++ [(message, t.opened)] := sends_snoc_send hcmd
  have hlength : (sends (tr ++ [e])).length = (sends tr).length + 1 := by
    rw [hsends, List.length_append, List.length_singleton]
  have hcount : t.opened = (sends tr).length := hb.opened
  have hnoack : ∀ n, ¬ e.IsAck n := by
    intro n hack
    cases hcmd.symm.trans hack
  have hquiet : ∀ tx : Oneshot, e.effects.filterMap (Effect.answer? tx) = [] := by
    intro tx
    rcases hb.answers_step hst tx with ⟨-, n, message, -, hack⟩ | ⟨hans, -⟩
    · exact absurd hack (hnoack n)
    · exact hans
  refine ⟨?_, ?_, ?_, ?_, ?_, ?_⟩
  · rw [hnumber, hb.next_number, hlength]
    rfl
  · omega
  · intro post n message' tx hassigned
    rcases assigned_snoc.mp hassigned with ⟨-, hlast, hn⟩ | ⟨post', -, hbefore⟩
    · obtain ⟨-, rfl⟩ := Command.send.inj (hcmd.symm.trans hlast)
      refine ⟨?_, by omega⟩
      rw [hn, number, hcount]
    · obtain ⟨hn, hlt⟩ := hb.ticket _ _ _ _ hbefore
      exact ⟨hn, by omega⟩
  · intro n message' tx
    rw [hwaiting, HashMap.lookup_insert_eq_ite, waiting_snoc, hb.next_number, hcmd]
    by_cases hn : n = number tr
    · -- the new number holds the new waiter, and nobody held it before
      subst hn
      have hnotheld : ¬ Waiting tr (number tr) message' tx := by
        intro hw
        have hl := (hb.held _ message' tx).mpr hw
        rw [hb.fresh hlen] at hl
        cases hl
      simp [hnotheld]
    · simp [hn, hnoack n, hb.held]
  · intro tx htx
    rw [answers_snoc, hquiet, List.append_nil]
    exact hb.unopened tx (by omega)
  · intro post n message' tx hassigned
    rcases assigned_snoc.mp hassigned with ⟨rfl, hlast, -⟩ | ⟨post', rfl, hbefore⟩
    · obtain ⟨-, rfl⟩ := Command.send.inj (hcmd.symm.trans hlast)
      rw [answers_snoc, hquiet, List.append_nil, hb.unopened _ (le_refl _)]
      refine ⟨fun _ => rfl, fun h => absurd (fun e he => ?_) h⟩
      cases he
    · exact hb.once_step hst hbefore

/-- The books after any other step. -/
theorem Books.other_step (hb : Books tr t) (hst : Stepped t e t')
    (hcmd : ∀ message tx, e.command ≠ .send message tx) : Books (tr ++ [e]) t' := by
  obtain ⟨hnumber, hopened⟩ := hst.of_not_send hcmd
  have hsends : sends (tr ++ [e]) = sends tr := sends_snoc_other hcmd
  have hassigned_iff : ∀ {post n message} {tx : Nat}, Assigned (tr ++ [e]) post n message tx →
      ∃ post', post = post' ++ [e] ∧ Assigned tr post' n message tx := by
    intro post n message tx hassigned
    rcases assigned_snoc.mp hassigned with ⟨-, hlast, -⟩ | hbefore
    · exact absurd hlast (hcmd _ _)
    · exact hbefore
  refine ⟨?_, ?_, ?_, ?_, ?_, ?_⟩
  · rw [hnumber, hsends, hb.counter]
  · rw [hopened, hsends, hb.opened]
  · intro post n message tx hassigned
    obtain ⟨post', -, hbefore⟩ := hassigned_iff hassigned
    rw [hsends]
    exact hb.ticket _ _ _ _ hbefore
  · intro n message tx
    rw [held_step hst hcmd, hb.held, waiting_snoc]
    exact ⟨Or.inr, fun h => h.resolve_left fun hlast => hcmd _ _ hlast.1⟩
  · intro tx htx
    rw [answers_snoc, hb.unopened tx (by omega), List.nil_append]
    rcases hb.answers_step hst tx with ⟨-, n, message, ⟨post, hassigned, -⟩, -⟩ | ⟨hans, -⟩
    · -- a waiter that was not opened yet has no number
      have hlt := (hb.ticket _ _ _ _ hassigned).2
      have hcount := hb.opened
      omega
    · exact hans
  · intro post n message tx hassigned
    obtain ⟨post', rfl, hbefore⟩ := hassigned_iff hassigned
    exact hb.once_step hst hbefore

end Steps

/-! ## Whole runs -/

section Runs

variable {G : SenderTask → Event → Prop} {tr : List Event} {t : SenderTask}

theorem books_start : Books [] start where
  counter := rfl
  opened := rfl
  ticket := by
    intro post n message tx h
    exact absurd h not_assigned_nil
  held := by
    intro n message tx
    constructor
    · intro h
      cases h
    · rintro ⟨post, h, -⟩
      exact absurd h not_assigned_nil
  unopened := fun _ _ => rfl
  once := by
    intro post n message tx h
    exact absurd h not_assigned_nil

theorem sends_length_le_append (pre post : List Event) :
    (sends pre).length ≤ (sends (pre ++ post)).length := by
  simp [sends, List.filterMap_append]

/-- The books are kept along every run with fewer than 2^64 Sends. -/
theorem books_of_run (hrun : machine.RunWith G start tr t) (hlen : (sends tr).length < 2 ^ 64) :
    Books tr t := by
  induction hrun with
  | nil => exact books_start
  | @snoc tr s s' i e _ hs _ ih =>
      have hle := sends_length_le_append tr [e]
      have hb := ih (by omega)
      by_cases hsend : ∃ message tx, e.command = .send message tx
      · obtain ⟨message, tx, hcmd⟩ := hsend
        have hlength : (sends (tr ++ [e])).length = (sends tr).length + 1 := by
          rw [sends_snoc_send hcmd, List.length_append, List.length_singleton]
        exact hb.send_step (stepped_of_step hs) hcmd (by omega)
      · exact hb.other_step (stepped_of_step hs) fun message tx hcmd => hsend ⟨message, tx, hcmd⟩

/-- A waiter that was answered `Ok` had its number acknowledged. -/
theorem isAck_of_ok (hrun : machine.RunWith G start tr t) (hlen : (sends tr).length < 2 ^ 64)
    (hassigned : Assigned tr post n message tx) (hok : .ok () ∈ answers tr tx) :
    ∃ e ∈ tr, e.IsAck n := by
  by_contra hnone
  have hunacked : Unacked n post := by
    intro e he hack
    obtain ⟨pre, e₀, htr, -, -⟩ := hassigned
    apply hnone
    refine ⟨e, ?_, hack⟩
    rw [htr]
    exact List.mem_append_right _ (List.mem_cons_of_mem _ he)
  rw [((books_of_run hrun hlen).once _ _ _ _ hassigned).1 hunacked] at hok
  cases hok

/-- The bookkeeping of a run is exact. -/
structure Exact (tr : List Event) (t : SenderTask) : Prop where
  /-- The k-th Send is given the number k, and replaces nobody. -/
  numbered : ∀ pre e post message tx, tr = pre ++ e :: post → e.command = .send message tx →
    (number pre).toNat = (sends pre).length + 1 ∧
      ∃ ok, e.effects = [.connectionSend (.send message (number pre)) ok]
  /-- The map holds exactly the waiting numbers, with their own messages and waiters. -/
  held : ∀ n message tx, t.actor.waitingForAck.lookup n = some (message, tx) ↔
    Waiting tr n message tx
  /-- An answer is an `Ok`, given at an acknowledgement of a number that waited until then. -/
  answered : ∀ pre e post tx result, tr = pre ++ e :: post →
    (Effect.respond tx result ∈ e.effects ↔
      result = .ok () ∧ ∃ n message, Waiting pre n message tx ∧ e.IsAck n)
  /-- A waiter is answered once if its number was acknowledged since, and not at all otherwise. -/
  once : ∀ post n message tx, Assigned tr post n message tx →
    (Unacked n post → answers tr tx = []) ∧ (¬ Unacked n post → answers tr tx = [.ok ()])

/-- **Reliable sender bookkeeping is exact against any peer**, in every run with fewer than 2^64
client Sends. -/
theorem exact_of_run (hrun : machine.Run start tr t) (hlen : (sends tr).length < 2 ^ 64) :
    Exact tr t where
  numbered := by
    intro pre e post message tx htr hcmd
    rw [htr] at hrun hlen
    obtain ⟨s, i, s', hpre, hs, -, -⟩ := hrun.around
    have hcount : (sends pre).length + 1 < 2 ^ 64 := by
      have hle := sends_length_le_append (pre ++ [e]) post
      rw [sends_snoc_send hcmd, List.append_assoc, List.singleton_append] at hle
      rw [List.length_append, List.length_singleton] at hle
      omega
    have hb := books_of_run hpre (by omega)
    refine ⟨UInt64.toNat_ofNat_of_lt' hcount, ?_⟩
    cases stepped_of_step hs with
    | @sent message' connected _ hcmd' heff =>
        obtain ⟨rfl, -⟩ := Command.send.inj (hcmd.symm.trans hcmd')
        refine ⟨connected, ?_⟩
        rw [heff, hb.next_number, hb.fresh hcount]
        rfl
    | received _ hcmd' => cases hcmd'.symm.trans hcmd
    | acked _ hcmd' => cases hcmd'.symm.trans hcmd
    | ackUnknown _ hcmd' => cases hcmd'.symm.trans hcmd
    | passedUp _ hcmd' => cases hcmd'.symm.trans hcmd
  held := (books_of_run hrun hlen).held
  answered := by
    intro pre e post tx result htr
    rw [htr] at hrun hlen
    obtain ⟨s, i, s', hpre, hs, -, -⟩ := hrun.around
    have hle := sends_length_le_append pre (e :: post)
    exact (books_of_run hpre (by omega)).answer_iff (stepped_of_step hs) result
  once := (books_of_run hrun hlen).once

/-- Two Sends, with acknowledgements that are forged in advance, repeated and out of order. -/
def forgedAcks : List Input :=
  [.receive (.ack 1) true, .send (.package "a" "first" 1) true,
   .send (.package "a" "second" 2) false, .receive (.ack 2) true, .receive (.ack 2) true]

theorem exact_of_run_forgedAcks :
    ∃ tr t, machine.exec start forgedAcks = some (t, tr) ∧ (sends tr).length < 2 ^ 64 ∧
      answers tr 0 = [] ∧ answers tr 1 = [.ok ()] ∧ Exact tr t := by
  have hexec : machine.exec start forgedAcks = some (_, _) := rfl
  exact ⟨_, _, hexec, by decide, by decide, by decide,
    exact_of_run (Machine.run_of_exec hexec) (by decide)⟩

end Runs

end SenderTask

end FrostFederation.ReliableSender
