/-
# FrostFederation.ReliableSender.Pair — two reliable senders on one link.

The link carries a frame the connection accepted at most once, in any order and possibly never; the
connection and the client channel may fail at any step, and clients send at both ends.  Three
facts hold in every reachable state:

* what one side has passed to its clients are messages with DISTINCT numbers, each assigned by the
  other side to a client's Send of that message: nothing is fabricated, nothing is duplicated;
* on a link that delivers in order the numbers increase, so messages come out as they were submitted;
* an `Ok` at one side means that the other side has processed that very frame.

They follow from one relation between the ends of the link: the data frames a side has processed,
with those still under way to it, are among the data frames the other side emitted (`Linked`).
-/
import FrostFederation.ReliableSender.Exact
import Mathlib.Data.List.Perm.Subperm

namespace FrostFederation.ReliableSender

open FrostFederation.Lib
open FrostFederation.Protocol

/-! ## The frames of one task -/

/-- A data frame as a message and its number. -/
def ReliableNetworkMessage.data? : ReliableNetworkMessage → Option (Message × UInt64)
  | .send message n => some (message, n)
  | .ack _ => none

/-- The frame of an effect that hands one to the connection, if it is accepted. -/
def Effect.accepted? : Effect → Option ReliableNetworkMessage
  | .connectionSend frame true => some frame
  | _ => none

/-- The message of an effect that puts one into the client channel, if it gets in. -/
def Effect.passed? : Effect → Option Message
  | .clientSend message true => some message
  | _ => none

namespace Event

/-- The frames the connection accepted in this step. -/
def accepted (e : Event) : List ReliableNetworkMessage := e.effects.filterMap Effect.accepted?

/-- The data frame this step processed. -/
def data? (e : Event) : Option (Message × UInt64) :=
  match e.command with
  | .network frame => frame.data?
  | _ => none

end Event

/-- The data frames among some frames. -/
def dataFrames (frames : List ReliableNetworkMessage) : List (Message × UInt64) :=
  frames.filterMap ReliableNetworkMessage.data?

namespace SenderTask

/-- The data frames the connection accepted, in order. -/
def emitted (tr : List Event) : List (Message × UInt64) :=
  tr.flatMap fun e => dataFrames e.accepted

/-- The data frames that were processed, in order. -/
def processed (tr : List Event) : List (Message × UInt64) := tr.filterMap Event.data?

/-- The messages that were put into the client channel, in order. -/
def passed (tr : List Event) : List Message :=
  tr.flatMap fun e => e.effects.filterMap Effect.passed?

section Frames

variable {G : SenderTask → Event → Prop} {tr : List Event} {t t' : SenderTask} {i : Input}
  {e : Event}

theorem emitted_snoc : emitted (tr ++ [e]) = emitted tr ++ dataFrames e.accepted := by
  simp [emitted]

theorem processed_snoc : processed (tr ++ [e]) = processed tr ++ e.data?.toList := by
  cases h : e.data? <;> simp [processed, h]

theorem passed_snoc : passed (tr ++ [e]) = passed tr ++ e.effects.filterMap Effect.passed? := by
  simp [passed]

/-- A step emits a data frame only for a client's Send. -/
theorem dataFrames_of_stepped (hst : Stepped t e t') :
    dataFrames e.accepted = [] ∨
      ∃ message, e.command = .send message t.opened ∧
        dataFrames e.accepted = [(message, t.actor.sequenceNumber + 1)] := by
  cases hst with
  | @sent message connected _ hcmd heff =>
      have hdrops : (((t.actor.waitingForAck.lookup (t.actor.sequenceNumber + 1)).map
          fun waiter => Effect.drop waiter.2).toList).filterMap Effect.accepted? = [] := by
        cases t.actor.waitingForAck.lookup (t.actor.sequenceNumber + 1) <;> simp [Effect.accepted?]
      rw [Event.accepted, heff, List.filterMap_append, hdrops]
      cases connected with
      | false => exact Or.inl rfl
      | true => exact Or.inr ⟨message, hcmd, rfl⟩
  | @received message n connected _ _ heff =>
      rw [Event.accepted, heff]
      cases connected <;> exact Or.inl rfl
  | acked _ _ _ heff =>
      rw [Event.accepted, heff]
      exact Or.inl rfl
  | ackUnknown _ _ _ heff =>
      rw [Event.accepted, heff]
      exact Or.inl rfl
  | passedUp _ _ heff =>
      rw [Event.accepted, heff]
      exact Or.inl rfl

/-- A step hands an acknowledgement to the connection only for the data frame it processes. -/
theorem ack_of_stepped (hst : Stepped t e t') {n : UInt64} (hack : .ack n ∈ e.accepted) :
    ∃ message, e.data? = some (message, n) := by
  obtain ⟨effect, hmem, heq⟩ := List.mem_filterMap.mp hack
  cases hst with
  | sent _ _ heff =>
      rw [heff] at hmem
      rcases List.mem_append.mp hmem with hdrop | hsend
      · cases hl : t.actor.waitingForAck.lookup (t.actor.sequenceNumber + 1) with
        | none => simp [hl] at hdrop
        | some waiter =>
            rw [hl] at hdrop
            rw [List.mem_singleton.mp hdrop] at heq
            cases heq
      · rw [List.mem_singleton.mp hsend, Effect.accepted?.eq_def] at heq
        split at heq <;> simp_all
  | @received message k connected _ hcmd heff =>
      rw [heff] at hmem
      rw [List.mem_singleton.mp hmem] at heq
      cases connected with
      | false => cases heq
      | true =>
          cases heq
          exact ⟨message, by rw [Event.data?, hcmd]; rfl⟩
  | acked _ _ _ heff =>
      rw [heff] at hmem
      rw [List.mem_singleton.mp hmem] at heq
      cases heq
  | ackUnknown _ _ _ heff =>
      rw [heff] at hmem
      cases hmem
  | passedUp _ _ heff =>
      rw [heff] at hmem
      rw [List.mem_singleton.mp hmem] at heq
      cases heq

/-- What was passed up, with what still waits to be, are messages of processed frames in the order
they were processed. -/
theorem passed_sublist (hrun : machine.RunWith G start tr t) :
    (passed tr ++ t.suspended.toList).Sublist ((processed tr).map Prod.fst) := by
  induction hrun with
  | nil => exact List.Sublist.refl _
  | @snoc tr s s' i e _ hs _ ih =>
      rw [passed_snoc, processed_snoc, List.map_append]
      cases stepped_of_step hs with
      | sent hidle hcmd heff _ _ hsuspended =>
          have hpassed : e.effects.filterMap Effect.passed? = [] := by
            rw [heff]
            cases s.actor.waitingForAck.lookup (s.actor.sequenceNumber + 1) <;> rfl
          rw [hpassed, hsuspended, Event.data?, hcmd]
          simpa [hidle] using ih
      | @received message n connected hidle hcmd heff _ hsuspended =>
          have hpassed : e.effects.filterMap Effect.passed? = [] := by
            rw [heff]
            rfl
          have hdata : e.data? = some (message, n) := by
            rw [Event.data?, hcmd]
            rfl
          have hold : (passed tr).Sublist ((processed tr).map Prod.fst) := by simpa [hidle] using ih
          rw [hpassed, hsuspended, hdata]
          cases connected with
          | false => simpa using hold.trans (List.sublist_append_left _ [message])
          | true => simpa using hold
      | acked hidle hcmd _ heff _ _ hsuspended =>
          have hpassed : e.effects.filterMap Effect.passed? = [] := by
            rw [heff]
            rfl
          rw [hpassed, hsuspended, Event.data?, hcmd]
          simpa [hidle, ReliableNetworkMessage.data?] using ih
      | ackUnknown hidle hcmd _ heff _ hsuspended =>
          rw [heff, hsuspended, Event.data?, hcmd]
          simpa [hidle, ReliableNetworkMessage.data?] using ih
      | @passedUp message clientOpen hsome hcmd heff _ hsuspended =>
          have hpassed : (e.effects.filterMap Effect.passed?).Sublist [message] := by
            rw [heff]
            cases clientOpen
            · exact List.nil_sublist _
            · exact List.Sublist.refl _
          rw [hsuspended, Event.data?, hcmd]
          rw [hsome] at ih
          simpa using (hpassed.append_left (passed tr)).trans ih

/-- Every emitted data frame carries a number that was assigned to its message. -/
theorem assigned_of_emitted (hrun : machine.RunWith G start tr t)
    (hlen : (sends tr).length < 2 ^ 64) {f : Message × UInt64} (hf : f ∈ emitted tr) :
    ∃ post, ∃ tx : Nat, Assigned tr post f.2 f.1 tx := by
  induction hrun with
  | nil => cases hf
  | @snoc tr s s' i e hprev hs _ ih =>
      have hle := sends_length_le_append tr [e]
      rw [emitted_snoc] at hf
      rcases List.mem_append.mp hf with hold | hnew
      · obtain ⟨post, tx, hassigned⟩ := ih (by omega) hold
        exact ⟨post ++ [e], tx, assigned_snoc.mpr (Or.inr ⟨post, rfl, hassigned⟩)⟩
      · rcases dataFrames_of_stepped (stepped_of_step hs) with hnone | ⟨message, hcmd, hone⟩
        · rw [hnone] at hnew
          cases hnew
        · rw [hone, (books_of_run hprev (by omega)).next_number] at hnew
          rw [List.mem_singleton.mp hnew]
          exact ⟨[], s.opened, assigned_snoc.mpr (Or.inl ⟨rfl, hcmd, rfl⟩)⟩

/-- The numbers of the emitted data frames increase. -/
theorem emitted_increasing (hrun : machine.RunWith G start tr t)
    (hlen : (sends tr).length < 2 ^ 64) :
    (emitted tr).Pairwise (fun f g => f.2.toNat < g.2.toNat) := by
  induction hrun with
  | nil => exact List.Pairwise.nil
  | @snoc tr s s' i e hprev hs _ ih =>
      have hle := sends_length_le_append tr [e]
      have hb := books_of_run hprev (by omega)
      rw [emitted_snoc]
      rcases dataFrames_of_stepped (stepped_of_step hs) with hnone | ⟨message, hcmd, hone⟩
      · rw [hnone, List.append_nil]
        exact ih (by omega)
      · have hlength : (sends (tr ++ [e])).length = (sends tr).length + 1 := by
          rw [sends_snoc_send hcmd, List.length_append, List.length_singleton]
        have hnext : (number tr).toNat = (sends tr).length + 1 :=
          UInt64.toNat_ofNat_of_lt' (show (sends tr).length + 1 < 2 ^ 64 by omega)
        rw [hone, hb.next_number, List.pairwise_append]
        refine ⟨ih (by omega), List.pairwise_singleton _ _, ?_⟩
        intro f hf g hg
        rw [List.mem_singleton.mp hg, hnext]
        -- a frame emitted before has the number of an earlier Send
        obtain ⟨post, tx, hassigned⟩ := assigned_of_emitted hprev (by omega) hf
        obtain ⟨hn, htx⟩ := hb.ticket _ _ _ _ hassigned
        have hnat : f.2.toNat = tx + 1 := by
          rw [hn]
          exact UInt64.toNat_ofNat_of_lt' (show tx + 1 < 2 ^ 64 by omega)
        omega

/-- A number is assigned to one message only. -/
theorem assigned_unique (hrun : machine.RunWith G start tr t) (hlen : (sends tr).length < 2 ^ 64)
    {post post' : List Event} {n : UInt64} {message message' : Message} {tx tx' : Nat}
    (h : Assigned tr post n message tx) (h' : Assigned tr post' n message' tx') :
    message = message' := by
  have hticket : tx = tx' := by
    obtain ⟨hn, hlt⟩ := (books_of_run hrun hlen).ticket _ _ _ _ h
    obtain ⟨hn', hlt'⟩ := (books_of_run hrun hlen).ticket _ _ _ _ h'
    exact ofNat_succ_inj (by omega) (by omega) (hn.symm.trans hn')
  subst hticket
  induction hrun generalizing post post' with
  | nil => exact absurd h not_assigned_nil
  | @snoc tr s s' i e hprev hs _ ih =>
      have hle := sends_length_le_append tr [e]
      have hb := books_of_run hprev (by omega)
      have hcount := hb.opened
      -- the last Send has the newest waiter, which no earlier Send has
      have hnewest : ∀ {message₁ message₂ post₁}, e.command = .send message₁ tx →
          ¬ Assigned tr post₁ n message₂ tx := by
        intro message₁ message₂ post₁ hcmd hearlier
        have htx := ((stepped_of_step hs).of_send hcmd).1
        have hlt := (hb.ticket _ _ _ _ hearlier).2
        omega
      rcases assigned_snoc.mp h with ⟨-, hcmd, -⟩ | ⟨post₁, -, h₁⟩ <;>
        rcases assigned_snoc.mp h' with ⟨-, hcmd', -⟩ | ⟨post₂, -, h₂⟩
      · exact (Command.send.inj (hcmd.symm.trans hcmd')).1
      · exact absurd h₂ (hnewest hcmd)
      · exact absurd h₁ (hnewest hcmd')
      · exact ih (by omega) h₁ h₂

end Frames

end SenderTask

/-! ## Two tasks and a link -/

inductive Side where
  | left
  | right
  deriving DecidableEq, Repr

namespace Side

def other : Side → Side
  | left => right
  | right => left

@[simp]
theorem other_other (s : Side) : s.other.other = s := by
  cases s <;> rfl

@[simp]
theorem other_ne (s : Side) : s.other ≠ s := by
  cases s <;> decide

theorem eq_or_eq_other (s side : Side) : s = side ∨ s = side.other := by
  cases s <;> cases side <;> decide

end Side

/-- The tasks of the two sides, and the frames under way to each of them. -/
structure Pair where
  task : Side → SenderTask
  link : Side → List ReliableNetworkMessage

/-- A step of the pair: a client sends, the link delivers one of the frames under way, a task is done
waiting for its client channel, or the link loses a frame. -/
inductive PairInput where
  | send (side : Side) (message : Message) (connected : Bool)
  | deliver (side : Side) (index : Nat) (connected : Bool)
  | passUp (side : Side) (clientOpen : Bool)
  | lose (side : Side) (index : Nat)

inductive PairEvent where
  | own (side : Side) (e : Event)
  | delivered (side : Side) (index : Nat) (e : Event)
  | lost (side : Side) (index : Nat)

/-- The event as the task of side `s` sees it. -/
def PairEvent.at? (s : Side) : PairEvent → Option Event
  | .own side e => if side = s then some e else none
  | .delivered side _ e => if side = s then some e else none
  | .lost _ _ => none

/-- A side sees its own steps and the deliveries to it. -/
theorem PairEvent.at?_eq_some {pe : PairEvent} {s : Side} {e : Event} :
    pe.at? s = some e ↔ pe = .own s e ∨ ∃ index, pe = .delivered s index e := by
  cases pe with
  | own side e' => by_cases hside : side = s <;> simp [at?, hside]
  | delivered side index e' => by_cases hside : side = s <;> simp [at?, hside]
  | lost side index => simp [at?]

/-- A delivery takes a frame from a place the link allows. -/
def PairEvent.Meets (C : Nat → Prop) : PairEvent → Prop
  | .delivered _ index _ => C index
  | _ => True

namespace Pair

def start : Pair := ⟨fun _ => .start, fun _ => []⟩

/-- One step of the task of a side; the frames its connection accepts go to the other side. -/
def advance (p : Pair) (side : Side) (i : Input) : Option (Pair × Event) :=
  match (p.task side).step i with
  | none => none
  | some (t, e) =>
      some (⟨Function.update p.task side t,
        Function.update p.link side.other (p.link side.other ++ e.accepted)⟩, e)

/-- The frame at `index` leaves the link to `side`. -/
def unlink (p : Pair) (side : Side) (index : Nat) : Pair :=
  { p with link := Function.update p.link side ((p.link side).eraseIdx index) }

def step (p : Pair) : PairInput → Option (Pair × PairEvent)
  | .send side message connected =>
      (p.advance side (.send message connected)).map fun r => (r.1, .own side r.2)
  | .passUp side clientOpen =>
      (p.advance side (.passUp clientOpen)).map fun r => (r.1, .own side r.2)
  | .deliver side index connected =>
      match (p.link side)[index]? with
      | none => none
      | some frame =>
          ((p.unlink side index).advance side (.receive frame connected)).map
            fun r => (r.1, .delivered side index r.2)
  | .lose side index =>
      if index < (p.link side).length then some (p.unlink side index, .lost side index) else none

def machine : Machine Pair PairInput PairEvent := ⟨step⟩

/-- The history of one side. -/
def events (s : Side) (tr : List PairEvent) : List Event := tr.filterMap (PairEvent.at? s)

/-- What one step of the pair does to the two tasks and the two links. -/
inductive Moved (p : Pair) (pe : PairEvent) (p' : Pair) : Prop
  | own {side : Side} {i : Input} {e : Event} (hpe : pe = .own side e)
      (hs : SenderTask.machine.step (p.task side) i = some (p'.task side, e))
      (hcmd : ∀ frame, e.command ≠ .network frame)
      (htask : p'.task side.other = p.task side.other) (hlink : p'.link side = p.link side)
      (hother : p'.link side.other = p.link side.other ++ e.accepted) : Moved p pe p'
  | delivered {side : Side} {index : Nat} {frame : ReliableNetworkMessage} {i : Input} {e : Event}
      (hpe : pe = .delivered side index e) (hframe : (p.link side)[index]? = some frame)
      (hs : SenderTask.machine.step (p.task side) i = some (p'.task side, e))
      (hcmd : e.command = .network frame)
      (htask : p'.task side.other = p.task side.other)
      (hlink : p'.link side = (p.link side).eraseIdx index)
      (hother : p'.link side.other = p.link side.other ++ e.accepted) : Moved p pe p'
  | lost {side : Side} {index : Nat} (hpe : pe = .lost side index) (htask : p'.task = p.task)
      (hlink : p'.link side = (p.link side).eraseIdx index)
      (hother : p'.link side.other = p.link side.other) : Moved p pe p'

theorem advance_eq_some {p p' : Pair} {side : Side} {i : Input} {e : Event}
    (h : p.advance side i = some (p', e)) :
    SenderTask.machine.step (p.task side) i = some (p'.task side, e) ∧
      p'.task side.other = p.task side.other ∧ p'.link side = p.link side ∧
      p'.link side.other = p.link side.other ++ e.accepted := by
  unfold advance at h
  cases hs : (p.task side).step i with
  | none => simp [hs] at h
  | some r =>
      obtain ⟨t, e'⟩ := r
      simp only [hs, Option.some.injEq, Prod.mk.injEq] at h
      obtain ⟨rfl, rfl⟩ := h
      refine ⟨?_, ?_, ?_, ?_⟩
      · show (p.task side).step i = some (Function.update p.task side t side, e')
        rw [Function.update_self]
        exact hs
      · exact Function.update_of_ne side.other_ne _ _
      · exact Function.update_of_ne side.other_ne.symm _ _
      · exact Function.update_self _ _ _

/-- **Every step of the pair is one of the three.** -/
theorem moved_of_step {p p' : Pair} {i : PairInput} {pe : PairEvent}
    (h : machine.step p i = some (p', pe)) : Moved p pe p' := by
  cases i with
  | send side message connected =>
      obtain ⟨⟨q, e⟩, hr, heq⟩ := Option.map_eq_some_iff.mp h
      obtain ⟨rfl, rfl⟩ := Prod.mk.inj heq
      obtain ⟨hs, htask, hlink, hother⟩ := advance_eq_some hr
      refine .own rfl hs ?_ htask hlink hother
      intro frame hcmd
      obtain ⟨_, hinput⟩ := (SenderTask.network_iff_of_step hs frame).mp hcmd
      cases hinput
  | passUp side clientOpen =>
      obtain ⟨⟨q, e⟩, hr, heq⟩ := Option.map_eq_some_iff.mp h
      obtain ⟨rfl, rfl⟩ := Prod.mk.inj heq
      obtain ⟨hs, htask, hlink, hother⟩ := advance_eq_some hr
      refine .own rfl hs ?_ htask hlink hother
      intro frame hcmd
      obtain ⟨_, hinput⟩ := (SenderTask.network_iff_of_step hs frame).mp hcmd
      cases hinput
  | deliver side index connected =>
      cases hframe : (p.link side)[index]? with
      | none => simp [machine, step, hframe] at h
      | some frame =>
          simp only [machine, step, hframe] at h
          obtain ⟨⟨q, e⟩, hr, heq⟩ := Option.map_eq_some_iff.mp h
          obtain ⟨rfl, rfl⟩ := Prod.mk.inj heq
          obtain ⟨hs, htask, hlink, hother⟩ := advance_eq_some hr
          refine .delivered rfl hframe hs ?_ htask ?_ ?_
          · exact (SenderTask.network_iff_of_step hs frame).mpr ⟨connected, rfl⟩
          · rw [hlink]
            exact Function.update_self _ _ _
          · rw [hother]
            congr 1
            exact Function.update_of_ne side.other_ne _ _
  | lose side index =>
      simp only [machine, step] at h
      split at h
      · simp only [Option.some.injEq, Prod.mk.injEq] at h
        obtain ⟨rfl, rfl⟩ := h
        exact .lost rfl rfl (Function.update_self _ _ _) (Function.update_of_ne side.other_ne _ _)
      · cases h

/-! ## The two histories of a run -/

section Runs

variable {G : Pair → PairEvent → Prop} {tr : List PairEvent} {p p' : Pair} {pe : PairEvent}
  {s side : Side} {i : Input} {e : Event}

theorem events_snoc : events s (tr ++ [pe]) = events s tr ++ (pe.at? s).toList := by
  cases h : pe.at? s <;> simp [events, h]

/-- A run of the pair is a run of each of its tasks. -/
theorem run_events (hrun : machine.RunWith G start tr p) (s : Side) :
    SenderTask.machine.Run SenderTask.start (events s tr) (p.task s) := by
  refine hrun.project (fun p => p.task s) (fun pe => pe.at? s) ?_
  intro q i q' pe hs
  cases moved_of_step hs with
  | @own side i e hpe hs' _ htask =>
      rcases s.eq_or_eq_other side with rfl | rfl
      · exact Or.inr ⟨i, e, by simp [hpe, PairEvent.at?], hs'⟩
      · exact Or.inl ⟨by simp [hpe, PairEvent.at?, side.other_ne.symm], by rw [htask]⟩
  | @delivered side index frame i e hpe _ hs' _ htask =>
      rcases s.eq_or_eq_other side with rfl | rfl
      · exact Or.inr ⟨i, e, by simp [hpe, PairEvent.at?], hs'⟩
      · exact Or.inl ⟨by simp [hpe, PairEvent.at?, side.other_ne.symm], by rw [htask]⟩
  | lost hpe htask => exact Or.inl ⟨by simp [hpe, PairEvent.at?], by rw [htask]⟩

/-! ## The relation between the ends of the link -/

/-- A way to compare what comes out of a link with what went in: it is kept when more goes in, when
frames are lost, and when a frame at a place the link allows comes out. -/
structure Discipline (C : Nat → Prop) (R : List (Message × UInt64) → List (Message × UInt64) → Prop) :
    Prop where
  nil : R [] []
  append : ∀ {a b c}, R a b → R (a ++ c) (b ++ c)
  sublist : ∀ {a a' b}, a'.Sublist a → R a b → R a' b
  deliver : ∀ {a b} {frames : List ReliableNetworkMessage} {index frame}, C index →
    frames[index]? = some frame → R (a ++ dataFrames frames) b →
    R (a ++ frame.data?.toList ++ dataFrames (frames.eraseIdx index)) b

/-- Any order: what comes out is, up to order, among what went in. -/
theorem discipline_anyOrder : Discipline (fun _ => True) List.Subperm where
  nil := List.Subperm.refl _
  append := fun h => (List.subperm_append_right _).mpr h
  sublist := fun hsub h => hsub.subperm.trans h
  deliver := by
    intro a b frames index frame _ hframe h
    obtain ⟨hlt, hget⟩ := List.getElem?_eq_some_iff.mp hframe
    have hperm : (frame :: frames.eraseIdx index).Perm frames := by
      rw [← hget]
      exact List.getElem_cons_eraseIdx_perm hlt
    have hdata : (frame.data?.toList ++ dataFrames (frames.eraseIdx index)).Perm
        (dataFrames frames) := by
      have hcons : dataFrames (frame :: frames.eraseIdx index) =
          frame.data?.toList ++ dataFrames (frames.eraseIdx index) := by
        cases hd : frame.data? <;> simp [dataFrames, hd]
      rw [← hcons]
      exact hperm.filterMap _
    rw [List.append_assoc]
    exact (hdata.append_left a).subperm.trans h

/-- In order: what comes out is a part of what went in, in the same order. -/
theorem discipline_inOrder : Discipline (fun index => index = 0) List.Sublist where
  nil := List.Sublist.refl _
  append := fun h => h.append_right _
  sublist := fun hsub h => hsub.trans h
  deliver := by
    rintro a b frames index frame rfl hframe h
    cases frames with
    | nil => cases hframe
    | cons head rest =>
        obtain rfl : head = frame := Option.some.inj hframe
        cases hd : head.data? <;> simpa [dataFrames, hd] using h

/-- The data frames a side has processed, with those under way to it, against those the other side
has emitted. -/
def Linked (R : List (Message × UInt64) → List (Message × UInt64) → Prop) (tr : List PairEvent)
    (p : Pair) : Prop :=
  ∀ s, R (SenderTask.processed (events s tr) ++ dataFrames (p.link s))
    (SenderTask.emitted (events s.other tr))

theorem dataFrames_append (frames frames' : List ReliableNetworkMessage) :
    dataFrames (frames ++ frames') = dataFrames frames ++ dataFrames frames' :=
  List.filterMap_append

theorem dataFrames_eraseIdx_sublist (frames : List ReliableNetworkMessage) (index : Nat) :
    (dataFrames (frames.eraseIdx index)).Sublist (dataFrames frames) :=
  (List.eraseIdx_sublist frames index).filterMap _

/-- The history of a side grows by its own event, and the other one stays. -/
theorem events_of_side (tr : List PairEvent)
    (hpe : pe = .own side e ∨ ∃ index, pe = .delivered side index e) :
    events side (tr ++ [pe]) = events side tr ++ [e] ∧
      events side.other (tr ++ [pe]) = events side.other tr := by
  rw [events_snoc, events_snoc]
  rcases hpe with rfl | ⟨index, rfl⟩ <;> simp [PairEvent.at?, side.other_ne.symm]

theorem data?_of_not_network (hcmd : ∀ frame, e.command ≠ .network frame) : e.data? = none := by
  unfold Event.data?
  split
  · next frame h => exact absurd h (hcmd frame)
  · rfl

/-- What a step emits goes onto the link to the other side. -/
theorem linked_other {C : Nat → Prop}
    {R : List (Message × UInt64) → List (Message × UInt64) → Prop} (hR : Discipline C R)
    (hl : Linked R tr p) (hpe : pe = .own side e ∨ ∃ index, pe = .delivered side index e)
    (hother : p'.link side.other = p.link side.other ++ e.accepted) :
    R (SenderTask.processed (events side.other (tr ++ [pe])) ++ dataFrames (p'.link side.other))
      (SenderTask.emitted (events side.other.other (tr ++ [pe]))) := by
  obtain ⟨hside, hkeep⟩ := events_of_side tr hpe
  have hbefore := hR.append (c := dataFrames e.accepted) (hl side.other)
  rw [Side.other_other] at hbefore ⊢
  rw [hside, hkeep, hother, dataFrames_append, SenderTask.emitted_snoc, ← List.append_assoc]
  exact hbefore

/-- One step of the pair keeps the relation between the ends of the link. -/
theorem linked_step {C : Nat → Prop}
    {R : List (Message × UInt64) → List (Message × UInt64) → Prop} (hR : Discipline C R)
    (hl : Linked R tr p) (hmoved : Moved p pe p') (hC : pe.Meets C) :
    Linked R (tr ++ [pe]) p' := by
  intro s
  cases hmoved with
  | @own side i e hpe hs hcmd htask hlink hother =>
      rcases s.eq_or_eq_other side with rfl | rfl
      · obtain ⟨hside, hkeep⟩ := events_of_side tr (Or.inl hpe)
        rw [hside, hkeep, hlink, SenderTask.processed_snoc, data?_of_not_network hcmd]
        simpa using hl s
      · exact linked_other hR hl (Or.inl hpe) hother
  | @delivered side index frame i e hpe hframe hs hcmd htask hlink hother =>
      rcases s.eq_or_eq_other side with rfl | rfl
      · obtain ⟨hside, hkeep⟩ := events_of_side tr (Or.inr ⟨index, hpe⟩)
        have hdata : e.data? = frame.data? := by rw [Event.data?, hcmd]
        rw [hside, hkeep, hlink, SenderTask.processed_snoc, hdata]
        rw [hpe] at hC
        exact hR.deliver hC hframe (hl s)
      · exact linked_other hR hl (Or.inr ⟨index, hpe⟩) hother
  | @lost side index hpe htask hlink hother =>
      have hkeep : ∀ s, events s (tr ++ [pe]) = events s tr := by
        intro s
        rw [events_snoc, hpe]
        exact List.append_nil _
      rw [hkeep, hkeep]
      rcases s.eq_or_eq_other side with rfl | rfl
      · rw [hlink]
        exact hR.sublist ((dataFrames_eraseIdx_sublist _ _).append_left _) (hl s)
      · rw [hother]
        exact hl side.other

theorem linked_of_run {C : Nat → Prop}
    {R : List (Message × UInt64) → List (Message × UInt64) → Prop} (hR : Discipline C R)
    (hrun : machine.RunWith (fun _ pe => pe.Meets C) start tr p) : Linked R tr p :=
  hrun.invariant (fun _ => hR.nil) fun _ hl hs hC => linked_step hR hl (moved_of_step hs) hC

/-! ## Acknowledgements are genuine -/

/-- Every acknowledgement under way to a side, or processed by it, is for a data frame the other side
has processed. -/
def AcksGenuine (tr : List PairEvent) (p : Pair) : Prop :=
  ∀ s n, .ack n ∈ p.link s ∨ (∃ e ∈ events s tr, e.IsAck n) →
    ∃ message, (message, n) ∈ SenderTask.processed (events s.other tr)

/-- An acknowledgement a step emits is for the data frame it processes. -/
theorem ackGenuine_other (hl : AcksGenuine tr p)
    (hs : SenderTask.machine.step (p.task side) i = some (p'.task side, e))
    (hpe : pe = .own side e ∨ ∃ index, pe = .delivered side index e)
    (hother : p'.link side.other = p.link side.other ++ e.accepted) (n : UInt64)
    (hack : .ack n ∈ p'.link side.other ∨ ∃ e' ∈ events side.other (tr ++ [pe]), e'.IsAck n) :
    ∃ message, (message, n) ∈ SenderTask.processed (events side.other.other (tr ++ [pe])) := by
  obtain ⟨hside, hkeep⟩ := events_of_side tr hpe
  rw [Side.other_other, hside, SenderTask.processed_snoc]
  rw [hkeep, hother, List.mem_append, or_right_comm] at hack
  rcases hack with hbefore | hnew
  · obtain ⟨message, hmem⟩ := hl side.other n hbefore
    rw [Side.other_other] at hmem
    exact ⟨message, List.mem_append_left _ hmem⟩
  · obtain ⟨message, hdata⟩ := SenderTask.ack_of_stepped (SenderTask.stepped_of_step hs) hnew
    refine ⟨message, List.mem_append_right _ ?_⟩
    rw [hdata]
    exact List.mem_singleton.mpr rfl

/-- At the side that takes the step no acknowledgement is new: what it processes was under way. -/
theorem ackGenuine_self (hl : AcksGenuine tr p)
    (hpe : pe = .own side e ∨ ∃ index, pe = .delivered side index e)
    (hlink : ∀ frame ∈ p'.link side, frame ∈ p.link side)
    (hprocessed : ∀ n, e.IsAck n → .ack n ∈ p.link side) (n : UInt64)
    (hack : .ack n ∈ p'.link side ∨ ∃ e' ∈ events side (tr ++ [pe]), e'.IsAck n) :
    ∃ message, (message, n) ∈ SenderTask.processed (events side.other (tr ++ [pe])) := by
  obtain ⟨hside, hkeep⟩ := events_of_side tr hpe
  rw [hkeep]
  refine hl side n ?_
  rw [hside] at hack
  rcases hack with hlinked | ⟨e', he', hisack⟩
  · exact Or.inl (hlink _ hlinked)
  · rcases List.mem_append.mp he' with hold | hlast
    · exact Or.inr ⟨e', hold, hisack⟩
    · rw [List.mem_singleton.mp hlast] at hisack
      exact Or.inl (hprocessed n hisack)

theorem acksGenuine_step (hl : AcksGenuine tr p) (hmoved : Moved p pe p') :
    AcksGenuine (tr ++ [pe]) p' := by
  intro s n hack
  cases hmoved with
  | @own side i e hpe hs hcmd htask hlink hother =>
      rcases s.eq_or_eq_other side with rfl | rfl
      · refine ackGenuine_self hl (Or.inl hpe) ?_ ?_ n hack
        · intro frame hmem
          rwa [hlink] at hmem
        · intro n hisack
          exact absurd hisack (hcmd _)
      · exact ackGenuine_other hl hs (Or.inl hpe) hother n hack
  | @delivered side index frame i e hpe hframe hs hcmd htask hlink hother =>
      rcases s.eq_or_eq_other side with rfl | rfl
      · refine ackGenuine_self hl (Or.inr ⟨index, hpe⟩) ?_ ?_ n hack
        · intro frame' hmem
          rw [hlink] at hmem
          exact List.mem_of_mem_eraseIdx hmem
        · intro n hisack
          obtain rfl : frame = .ack n := Command.network.inj (hcmd.symm.trans hisack)
          exact List.mem_of_getElem? hframe
      · exact ackGenuine_other hl hs (Or.inr ⟨index, hpe⟩) hother n hack
  | @lost side index hpe htask hlink hother =>
      have hkeep : ∀ s, events s (tr ++ [pe]) = events s tr := by
        intro s
        rw [events_snoc, hpe]
        exact List.append_nil _
      rw [hkeep] at hack ⊢
      refine hl s n ?_
      rcases hack with hlinked | hprocessed
      · rcases s.eq_or_eq_other side with rfl | rfl
        · rw [hlink] at hlinked
          exact Or.inl (List.mem_of_mem_eraseIdx hlinked)
        · rw [hother] at hlinked
          exact Or.inl hlinked
      · exact Or.inr hprocessed

theorem acksGenuine_of_run (hrun : machine.RunWith G start tr p) : AcksGenuine tr p := by
  refine hrun.invariant ?_ fun _ hl hs _ => acksGenuine_step hl (moved_of_step hs)
  rintro s n (hlinked | ⟨e, he, -⟩)
  · cases hlinked
  · cases he

/-! ## No fabrication, no duplication, genuine acknowledgements -/

/-- What the pair guarantees, for each of its sides. -/
structure Reliable (tr : List PairEvent) : Prop where
  /-- What the other side has passed to its clients are messages with distinct numbers, each
  assigned here to a client's Send of that message; on a link that delivers in order, in the order
  of the Sends. -/
  passed : ∀ s, ∃ frames : List (Message × UInt64),
    frames.map Prod.fst = SenderTask.passed (events s.other tr) ∧
      (frames.map Prod.snd).Nodup ∧
      (∀ f ∈ frames, ∃ post tx, SenderTask.Assigned (events s tr) post f.2 f.1 tx) ∧
      ((∀ pe ∈ tr, pe.Meets (fun index => index = 0)) →
        frames.Pairwise fun f g => f.2.toNat < g.2.toNat)
  /-- A client that was answered `Ok` had its own frame processed by the other side. -/
  genuine : ∀ s post n message tx, SenderTask.Assigned (events s tr) post n message tx →
    .ok () ∈ SenderTask.answers (events s tr) tx →
    ∃ e ∈ events s.other tr, e.command = .network (.send message n)

/-- A link that delivers from anywhere allows every run. -/
theorem meets_anyOrder (pe : PairEvent) : pe.Meets fun _ => True := by
  cases pe <;> trivial

theorem command_of_processed {events : List Event} {message : Message} {n : UInt64}
    (h : (message, n) ∈ SenderTask.processed events) :
    ∃ e ∈ events, e.command = .network (.send message n) := by
  obtain ⟨e, he, hdata⟩ := List.mem_filterMap.mp h
  refine ⟨e, he, ?_⟩
  cases hcmd : e.command with
  | send message' tx => simp [Event.data?, hcmd] at hdata
  | passUp message' => simp [Event.data?, hcmd] at hdata
  | network frame =>
      cases frame with
      | ack k => simp [Event.data?, hcmd, ReliableNetworkMessage.data?] at hdata
      | send message' k =>
          simp only [Event.data?, hcmd, ReliableNetworkMessage.data?, Option.some.injEq,
            Prod.mk.injEq] at hdata
          rw [hdata.1, hdata.2]

/-- What one side has processed under a number is the message the other side gave that number to. -/
theorem message_of_processed (hrun : machine.Run start tr p)
    (hlen : ∀ s, (SenderTask.sends (events s tr)).length < 2 ^ 64) {post : List Event} {n : UInt64}
    {message message' : Message} {tx : Oneshot}
    (hassigned : SenderTask.Assigned (events s tr) post n message tx)
    (hmem : (message', n) ∈ SenderTask.processed (events s.other tr)) : message = message' := by
  have hlinked := linked_of_run discipline_anyOrder (hrun.guarded fun pe _ => meets_anyOrder pe)
  have hemitted : (message', n) ∈ SenderTask.emitted (events s tr) := by
    have h := (hlinked s.other).subset (List.mem_append_left _ hmem)
    rwa [Side.other_other] at h
  obtain ⟨post', tx', hassigned'⟩ :=
    SenderTask.assigned_of_emitted (run_events hrun s) (hlen s) hemitted
  exact SenderTask.assigned_unique (run_events hrun s) (hlen s) hassigned hassigned'

/-- **Two reliable senders on a link that carries each frame at most once neither fabricate nor
duplicate messages, keep their order if the link does, and acknowledge only what was processed.** -/
theorem reliable_of_run (hrun : machine.Run start tr p)
    (hlen : ∀ s, (SenderTask.sends (events s tr)).length < 2 ^ 64) : Reliable tr := by
  have hlinked := linked_of_run discipline_anyOrder
    (hrun.guarded fun pe _ => meets_anyOrder pe)
  refine ⟨?_, ?_⟩
  · intro s
    have hrun_s := run_events hrun s
    have hpassed := SenderTask.passed_sublist (run_events hrun s.other)
    obtain ⟨frames, hframes, hmap⟩ :=
      List.sublist_map_iff.mp ((List.sublist_append_left _ _).trans hpassed)
    have hout := hframes.trans (List.sublist_append_left _ (dataFrames (p.link s.other)))
    have hemitted : frames.Subperm (SenderTask.emitted (events s tr)) := by
      have h := hout.subperm.trans (hlinked s.other)
      rwa [Side.other_other] at h
    have hincreasing := SenderTask.emitted_increasing hrun_s (hlen s)
    refine ⟨frames, hmap.symm, ?_, ?_, ?_⟩
    · have hdistinct : ((SenderTask.emitted (events s tr)).map Prod.snd).Nodup := by
        refine List.pairwise_map.mpr (hincreasing.imp ?_)
        intro f g hlt heq
        rw [heq] at hlt
        exact Nat.lt_irrefl _ hlt
      obtain ⟨reordered, hperm, hsub⟩ := hemitted
      exact (hperm.map Prod.snd).nodup_iff.mp (hdistinct.sublist (hsub.map Prod.snd))
    · intro f hf
      obtain ⟨post, tx, hassigned⟩ :=
        SenderTask.assigned_of_emitted hrun_s (hlen s) (hemitted.subset hf)
      exact ⟨post, tx, hassigned⟩
    · intro hinorder
      have hfifo := linked_of_run discipline_inOrder (hrun.guarded hinorder) s.other
      rw [Side.other_other] at hfifo
      exact hincreasing.sublist (hout.trans hfifo)
  · intro s post n message tx hassigned hok
    obtain ⟨e, he, hisack⟩ := SenderTask.isAck_of_ok (run_events hrun s) (hlen s) hassigned hok
    obtain ⟨message', hmem⟩ := acksGenuine_of_run hrun s n (Or.inr ⟨e, he, hisack⟩)
    rw [message_of_processed hrun hlen hassigned hmem]
    exact command_of_processed hmem

/-- Both sides send; the acknowledgement overtakes the message that is under way with it. -/
def crossedSends : List PairInput :=
  [.send .left (.package "a" "hello" 1) true, .send .right (.package "b" "hello" 2) true,
   .deliver .right 0 true, .passUp .right true, .deliver .left 1 true, .deliver .left 0 true]

theorem reliable_of_run_crossedSends :
    ∃ tr p, machine.exec start crossedSends = some (p, tr) ∧
      SenderTask.answers (events .left tr) 0 = [.ok ()] ∧
      SenderTask.passed (events .right tr) = [.package "a" "hello" 1] ∧ Reliable tr := by
  have hexec : machine.exec start crossedSends = some (_, _) := rfl
  refine ⟨_, _, hexec, by decide, by decide, ?_⟩
  refine reliable_of_run (Machine.run_of_exec hexec) ?_
  intro s
  cases s <;> decide

end Runs

end Pair

end FrostFederation.ReliableSender
