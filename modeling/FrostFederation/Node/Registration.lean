/-
# FrostFederation.Node.Registration — how connections enter the membership and leave it.

The model of `membership.rs` and of the two tasks that use it.  The main task (`connect_to_seeds`,
then `start_accept`) opens one connection at a time: it spawns the connection's event loop and THEN
calls `add_member`.  The event loop may end at any time after it was spawned and then calls
`remove_member`.  Both calls post a message into one bounded queue and wait for the answer of the
membership actor, which handles the messages in order.

Nothing orders the two posts of a connection, and the entries of the map are keyed by ADDRESS while
connections own them:

* after both messages of a connection have been handled its address is gone exactly when the Add was
  posted first;
* a Remove takes out its own connection's handle, and an open connection stays registered, if no
  connection is opened under an address that is still in use.
-/
import FrostFederation.EchoBroadcast.Actor
import FrostFederation.Lib.Run
import Mathlib.Data.Fintype.Basic

namespace FrostFederation.Node

open FrostFederation.Lib
open FrostFederation.EchoBroadcast (ReliableSenderMap)

/-! ## The membership actor -/

/-- The messages of the membership actor.  A connection stands for its reliable sender handle; the
event loop that waits for the answer to a Remove is named by its connection. -/
inductive MembershipMessage (C : Type) where
  | add (nodeId : String) (handle : C)
  | remove (nodeId : String) (caller : C)
  | getMembers
  deriving DecidableEq

namespace MembershipActor

variable {C : Type}

def addMember (members : ReliableSenderMap C) (nodeId : String) (handle : C) :
    ReliableSenderMap C :=
  members.insert nodeId handle

/-- The handle that was taken out is the answer. -/
def removeMember (members : ReliableSenderMap C) (nodeId : String) :
    ReliableSenderMap C × Option C :=
  (members.erase nodeId, members.lookup nodeId)

/-- One message of `run_membership_actor`, with the handle it takes out. -/
def handle (members : ReliableSenderMap C) : MembershipMessage C → ReliableSenderMap C × Option C
  | .add nodeId handle => (addMember members nodeId handle, none)
  | .remove nodeId _ => removeMember members nodeId
  | .getMembers => (members, none)

/-- The members after a list of messages. -/
def after (messages : List (MembershipMessage C)) : ReliableSenderMap C :=
  messages.foldl (fun members message => (handle members message).1) ∅

theorem after_snoc (messages : List (MembershipMessage C)) (message : MembershipMessage C) :
    after (messages ++ [message]) = (handle (after messages) message).1 := by
  simp [after]

@[simp]
theorem lookup_handle_add (members : ReliableSenderMap C) (nodeId : String) (h : C) :
    (handle members (.add nodeId h)).1.lookup nodeId = some h :=
  AList.lookup_insert members

@[simp]
theorem lookup_handle_remove (members : ReliableSenderMap C) (nodeId : String) (caller : C) :
    (handle members (.remove nodeId caller)).1.lookup nodeId = none :=
  AList.lookup_erase nodeId members

/-- The entry under an address changes only with the messages about it. -/
theorem lookup_handle_of_ne {members : ReliableSenderMap C} {message : MembershipMessage C}
    {a : String} (hadd : ∀ h, message ≠ .add a h) (hremove : ∀ caller, message ≠ .remove a caller) :
    (handle members message).1.lookup a = members.lookup a := by
  cases message with
  | add nodeId h =>
      apply AList.lookup_insert_ne
      rintro rfl
      exact hadd h rfl
  | remove nodeId caller =>
      apply AList.lookup_erase_ne
      rintro rfl
      exact hremove caller rfl
  | getMembers => rfl

/-- The connection that was added last under an address. -/
def lastAdded (a : String) (messages : List (MembershipMessage C)) : Option C :=
  (messages.filterMap fun
    | .add nodeId handle => if nodeId = a then some handle else none
    | _ => none).getLast?

/-- Without a Remove, the members are those that were added last. -/
theorem lookup_after_of_added {a : String} {messages : List (MembershipMessage C)}
    (h : ∀ a caller, .remove a caller ∉ messages) :
    (after messages).lookup a = lastAdded a messages := by
  induction messages using List.reverseRecOn with
  | nil => rfl
  | append_singleton messages message ih =>
      have hprev := ih fun a caller hmem => h a caller (List.mem_append_left _ hmem)
      rw [after_snoc]
      cases message with
      | add nodeId handle =>
          by_cases ha : nodeId = a
          · subst ha
            simp [lastAdded]
          · rw [lookup_handle_of_ne (by simp [ha]) (by simp), hprev]
            simp [lastAdded, ha]
      | remove nodeId caller => exact absurd (by simp) (h nodeId caller)
      | getMembers =>
          rw [lookup_handle_of_ne (by simp) (by simp), hprev]
          simp [lastAdded]

end MembershipActor

/-! ## The tasks -/

/-- Where the main task stands. -/
inductive MainPhase (C : Type) where
  | idle
  | adding (c : C)
  | awaiting (c : C)
  deriving DecidableEq

/-- Where the event loop of a connection stands. -/
inductive LoopPhase where
  | absent
  | running
  | removing
  | awaitingRemoval
  | ended
  deriving DecidableEq

structure Registration (C : Type) where
  main : MainPhase C
  loop : C → LoopPhase
  queue : List (MembershipMessage C)
  members : ReliableSenderMap C

namespace Registration

inductive Input (C : Type) where
  | connect (c : C)
  | postAdd
  | finish (c : C)
  | postRemove (c : C)
  /-- Somebody asks for a snapshot of the membership. -/
  | postGet
  | process

inductive Event (C : Type) where
  | connected (c : C)
  | posted (message : MembershipMessage C)
  | finished (c : C)
  | processed (message : MembershipMessage C) (removed : Option C)
  deriving DecidableEq

/-- The capacity of the queue of the membership actor. -/
def capacity : Nat := 32

variable {C : Type}

def start : Registration C := ⟨.idle, fun _ => .absent, [], ∅⟩

def post (s : Registration C) (message : MembershipMessage C) :
    Option (Registration C × Event C) :=
  if s.queue.length < capacity then
    some ({ s with queue := s.queue ++ [message] }, .posted message)
  else none

theorem post_eq_some {s s' : Registration C} {e : Event C} {message : MembershipMessage C}
    (h : s.post message = some (s', e)) :
    e = .posted message ∧ s' = { s with queue := s.queue ++ [message] } := by
  unfold post at h
  split at h
  · cases h
    exact ⟨rfl, rfl⟩
  · cases h

section Step

variable [DecidableEq C]

/-- The answer to a message wakes its caller. -/
def answer (s : Registration C) : MembershipMessage C → Registration C
  | .add _ _ => { s with main := .idle }
  | .remove _ caller => { s with loop := Function.update s.loop caller .ended }
  | .getMembers => s

variable (address : C → String)

def step (s : Registration C) : Input C → Option (Registration C × Event C)
  | .connect c =>
      match s.main, s.loop c with
      | .idle, .absent =>
          some ({ s with main := .adding c, loop := Function.update s.loop c .running },
            .connected c)
      | _, _ => none
  | .postAdd =>
      match s.main with
      | .adding c => { s with main := .awaiting c }.post (.add (address c) c)
      | _ => none
  | .finish c =>
      match s.loop c with
      | .running => some ({ s with loop := Function.update s.loop c .removing }, .finished c)
      | _ => none
  | .postRemove c =>
      match s.loop c with
      | .removing =>
          { s with loop := Function.update s.loop c .awaitingRemoval }.post (.remove (address c) c)
      | _ => none
  | .postGet => s.post .getMembers
  | .process =>
      match s.queue with
      | [] => none
      | message :: rest =>
          let r := MembershipActor.handle s.members message
          some ({ s with queue := rest, members := r.1 }.answer message,
            .processed message r.2)

def machine : Machine (Registration C) (Input C) (Event C) := ⟨step address⟩

/-! ## What one step can do -/

/-- The six things a step can be. -/
inductive Stepped (s : Registration C) (e : Event C) (s' : Registration C) : Prop
  | connected {c : C} (he : e = .connected c) (hmain : s.main = .idle) (hloop : s.loop c = .absent)
      (hs' : s' = { s with main := .adding c, loop := Function.update s.loop c .running }) :
      Stepped s e s'
  | postedAdd {c : C} (he : e = .posted (.add (address c) c)) (hmain : s.main = .adding c)
      (hs' : s' = { s with main := .awaiting c, queue := s.queue ++ [.add (address c) c] }) :
      Stepped s e s'
  | finished {c : C} (he : e = .finished c) (hloop : s.loop c = .running)
      (hs' : s' = { s with loop := Function.update s.loop c .removing }) : Stepped s e s'
  | postedRemove {c : C} (he : e = .posted (.remove (address c) c)) (hloop : s.loop c = .removing)
      (hs' : s' = { s with
        loop := Function.update s.loop c .awaitingRemoval
        queue := s.queue ++ [.remove (address c) c] }) : Stepped s e s'
  | postedGet (he : e = .posted .getMembers)
      (hs' : s' = { s with queue := s.queue ++ [.getMembers] }) : Stepped s e s'
  | processed {message : MembershipMessage C} {rest : List (MembershipMessage C)}
      (he : e = .processed message (MembershipActor.handle s.members message).2)
      (hqueue : s.queue = message :: rest)
      (hs' : s' = { s with
        queue := rest, members := (MembershipActor.handle s.members message).1 }.answer message) :
      Stepped s e s'

variable {address} {s s' : Registration C} {e : Event C}

/-- **Every step is one of the six.** -/
theorem stepped_of_step {i : Input C} (hs : (machine address).step s i = some (s', e)) :
    Stepped address s e s' := by
  cases i with
  | connect c =>
      simp only [machine, step] at hs
      split at hs
      · next hmain hloop =>
          cases hs
          exact .connected rfl hmain hloop rfl
      · cases hs
  | postAdd =>
      simp only [machine, step] at hs
      split at hs
      · next c hmain =>
          obtain ⟨he, hs'⟩ := post_eq_some hs
          exact .postedAdd he hmain hs'
      · cases hs
  | finish c =>
      simp only [machine, step] at hs
      split at hs
      · next hloop =>
          cases hs
          exact .finished rfl hloop rfl
      · cases hs
  | postRemove c =>
      simp only [machine, step] at hs
      split at hs
      · next hloop =>
          obtain ⟨he, hs'⟩ := post_eq_some hs
          exact .postedRemove he hloop hs'
      · cases hs
  | postGet =>
      obtain ⟨he, hs'⟩ := post_eq_some hs
      exact .postedGet he hs'
  | process =>
      simp only [machine, step] at hs
      split at hs
      · cases hs
      · next message rest hqueue =>
          cases hs
          exact .processed rfl hqueue rfl

/-- Which call opened a connection or ended its event loop can be read off the event. -/
theorem input_of_step {i : Input C} {c : C} (hs : (machine address).step s i = some (s', e)) :
    (e = .connected c ↔ i = .connect c) ∧ (e = .finished c ↔ i = .finish c) := by
  cases i with
  | connect c' =>
      simp only [machine, step] at hs
      split at hs <;> cases hs
      simp
  | postAdd =>
      simp only [machine, step] at hs
      split at hs
      · simp [(post_eq_some hs).1]
      · cases hs
  | finish c' =>
      simp only [machine, step] at hs
      split at hs <;> cases hs
      simp
  | postRemove c' =>
      simp only [machine, step] at hs
      split at hs
      · simp [(post_eq_some hs).1]
      · cases hs
  | postGet => simp [(post_eq_some hs).1]
  | process =>
      simp only [machine, step] at hs
      split at hs <;> cases hs
      simp

@[simp]
theorem answer_queue (message : MembershipMessage C) : (s.answer message).queue = s.queue := by
  cases message <;> rfl

@[simp]
theorem answer_members (message : MembershipMessage C) :
    (s.answer message).members = s.members := by
  cases message <;> rfl

/-- Only a message that the actor handles changes the members. -/
theorem members_cases (hst : Stepped address s e s') :
    ((∀ message removed, e ≠ .processed message removed) ∧ s'.members = s.members) ∨
      ∃ message rest, e = .processed message (MembershipActor.handle s.members message).2 ∧
        s.queue = message :: rest ∧
        s'.members = (MembershipActor.handle s.members message).1 := by
  cases hst with
  | connected he _ _ hs' => exact Or.inl ⟨by simp [he], by rw [hs']⟩
  | postedAdd he _ hs' => exact Or.inl ⟨by simp [he], by rw [hs']⟩
  | finished he _ hs' => exact Or.inl ⟨by simp [he], by rw [hs']⟩
  | postedRemove he _ hs' => exact Or.inl ⟨by simp [he], by rw [hs']⟩
  | postedGet he hs' => exact Or.inl ⟨by simp [he], by rw [hs']⟩
  | @processed message rest he hqueue hs' =>
      exact Or.inr ⟨message, rest, he, hqueue, by rw [hs', answer_members]⟩

end Step

/-! ## The queue keeps the order -/

/-- The messages that were posted, in order. -/
def posted (tr : List (Event C)) : List (MembershipMessage C) :=
  tr.filterMap fun
    | .posted message => some message
    | _ => none

/-- The messages the actor has handled, in order. -/
def processed (tr : List (Event C)) : List (MembershipMessage C) :=
  tr.filterMap fun
    | .processed message _ => some message
    | _ => none

section Histories

variable {tr : List (Event C)} {c : C} {message : MembershipMessage C} {removed : Option C}

@[simp]
theorem posted_connected : posted (tr ++ [.connected c]) = posted tr := by simp [posted]

@[simp]
theorem posted_posted : posted (tr ++ [.posted message]) = posted tr ++ [message] := by
  simp [posted]

@[simp]
theorem posted_finished : posted (tr ++ [.finished c]) = posted tr := by simp [posted]

@[simp]
theorem posted_processed : posted (tr ++ [.processed message removed]) = posted tr := by
  simp [posted]

@[simp]
theorem processed_connected : processed (tr ++ [.connected c]) = processed tr := by
  simp [processed]

@[simp]
theorem processed_posted : processed (tr ++ [.posted message]) = processed tr := by
  simp [processed]

@[simp]
theorem processed_finished : processed (tr ++ [.finished c]) = processed tr := by
  simp [processed]

@[simp]
theorem processed_processed :
    processed (tr ++ [.processed message removed]) = processed tr ++ [message] := by
  simp [processed]

theorem processed_of_ne {e : Event C} (h : ∀ message removed, e ≠ .processed message removed) :
    processed (tr ++ [e]) = processed tr := by
  cases e with
  | processed message removed => exact absurd rfl (h message removed)
  | _ => simp

end Histories

section Order

variable [DecidableEq C] {address : C → String} {G : Registration C → Event C → Prop}
  {tr : List (Event C)} {s s' : Registration C}

/-- **What was posted is what was handled and what is still queued**, in this order, and the members
are the outcome of what was handled. -/
theorem posted_eq (hrun : (machine address).RunWith G start tr s) :
    posted tr = processed tr ++ s.queue ∧ s.members = MembershipActor.after (processed tr) := by
  refine hrun.invariant (I := fun tr s => posted tr = processed tr ++ s.queue ∧
    s.members = MembershipActor.after (processed tr)) ⟨rfl, rfl⟩ ?_
  rintro tr s i s' e _ ⟨hposted, hmembers⟩ hs _
  cases stepped_of_step hs with
  | connected he _ _ hs' =>
      subst he hs'
      exact ⟨by simpa using hposted, by simpa using hmembers⟩
  | postedAdd he _ hs' =>
      subst he hs'
      exact ⟨by simp [hposted], by simpa using hmembers⟩
  | finished he _ hs' =>
      subst he hs'
      exact ⟨by simpa using hposted, by simpa using hmembers⟩
  | postedRemove he _ hs' =>
      subst he hs'
      exact ⟨by simp [hposted], by simpa using hmembers⟩
  | postedGet he hs' =>
      subst he hs'
      exact ⟨by simp [hposted], by simpa using hmembers⟩
  | processed he hqueue hs' =>
      subst he hs'
      exact ⟨by simp [hposted, hqueue], by simp [hmembers, MembershipActor.after_snoc]⟩

/-- A message as one of the tasks posts it: a connection is added and removed under its address. -/
def Proper (address : C → String) (m : MembershipMessage C) : Prop :=
  m = .getMembers ∨ ∃ c, m = .add (address c) c ∨ m = .remove (address c) c

theorem proper_of_posted (hrun : (machine address).RunWith G start tr s) :
    ∀ m ∈ posted tr, Proper address m := by
  refine hrun.invariant (I := fun tr _ => ∀ m ∈ posted tr, Proper address m) (by simp [posted]) ?_
  rintro tr s i s' e _ hinv hs _
  cases stepped_of_step hs with
  | connected he => simpa [he] using hinv
  | @postedAdd c he =>
      have hlast : Proper address (.add (address c) c) := Or.inr ⟨c, Or.inl rfl⟩
      simpa [he, or_imp, forall_and, hlast] using hinv
  | finished he => simpa [he] using hinv
  | @postedRemove c he =>
      have hlast : Proper address (.remove (address c) c) := Or.inr ⟨c, Or.inr rfl⟩
      simpa [he, or_imp, forall_and, hlast] using hinv
  | postedGet he =>
      have hlast : Proper address (.getMembers : MembershipMessage C) := Or.inl rfl
      simpa [he, or_imp, forall_and, hlast] using hinv
  | processed he => simpa [he] using hinv

theorem proper_of_queue (hrun : (machine address).RunWith G start tr s) :
    ∀ m ∈ s.queue, Proper address m := by
  intro m hm
  apply proper_of_posted hrun
  rw [(posted_eq hrun).1]
  exact List.mem_append_right _ hm

/-- An event loop that moves between other phases does not change who is in this one. -/
theorem update_eq_iff_of_ne {loop : C → LoopPhase} {c : C} {phase phase' : LoopPhase}
    (hold : loop c ≠ phase') (hnew : phase ≠ phase') (c' : C) :
    Function.update loop c phase c' = phase' ↔ loop c' = phase' := by
  by_cases h : c' = c
  · simp [h, hold, hnew]
  · simp [h]

/-- **Where the tasks stand is what is queued**: the Add of the connection the main task waits for,
and one Remove for each event loop that waits. -/
structure Coherent (address : C → String) (s : Registration C) : Prop where
  adds : ∀ c, s.queue.count (.add (address c) c) = if s.main = .awaiting c then 1 else 0
  removes : ∀ c, s.queue.count (.remove (address c) c) =
    if s.loop c = .awaitingRemoval then 1 else 0
  spawned : ∀ c, s.main = .adding c ∨ s.main = .awaiting c → s.loop c ≠ .absent

theorem coherent_start : Coherent address (start : Registration C) :=
  ⟨by simp [start], by simp [start], by simp [start]⟩

/-- A message at the head of the queue is one that somebody waits for. -/
theorem Coherent.head {message : MembershipMessage C} {rest : List (MembershipMessage C)}
    (h : Coherent address s) (hproper : Proper address message)
    (hqueue : s.queue = message :: rest) :
    message = .getMembers ∨
      (∃ c, message = .add (address c) c ∧ s.main = .awaiting c) ∨
      ∃ c, message = .remove (address c) c ∧ s.loop c = .awaitingRemoval := by
  have hmem : message ∈ s.queue := by simp [hqueue]
  rcases hproper with hget | ⟨c, hadd | hremove⟩
  · exact Or.inl hget
  · refine Or.inr (Or.inl ⟨c, hadd, ?_⟩)
    have hcount := h.adds c
    by_contra hne
    rw [if_neg hne, List.count_eq_zero, ← hadd] at hcount
    exact hcount hmem
  · refine Or.inr (Or.inr ⟨c, hremove, ?_⟩)
    have hcount := h.removes c
    by_contra hne
    rw [if_neg hne, List.count_eq_zero, ← hremove] at hcount
    exact hcount hmem

theorem coherent_processed {message : MembershipMessage C} {rest : List (MembershipMessage C)}
    {members : ReliableSenderMap C} (h : Coherent address s) (hproper : Proper address message)
    (hqueue : s.queue = message :: rest) :
    Coherent address ({ s with queue := rest, members := members }.answer message) := by
  have hhead := h.head hproper hqueue
  obtain ⟨hadds, hremoves, hspawned⟩ := h
  simp only [hqueue] at hadds hremoves
  -- what one kind of message leaves in the queue of the other kind
  have haddsOf : (∀ c, message ≠ .add (address c) c) → ∀ c, rest.count (.add (address c) c) =
      if s.main = .awaiting c then 1 else 0 := by
    intro hne c
    rw [← hadds c, List.count_cons_of_ne (hne c)]
  have hremovesOf : (∀ c, message ≠ .remove (address c) c) → ∀ c,
      rest.count (.remove (address c) c) = if s.loop c = .awaitingRemoval then 1 else 0 := by
    intro hne c
    rw [← hremoves c, List.count_cons_of_ne (hne c)]
  rcases hhead with rfl | ⟨c, rfl, hmain⟩ | ⟨c, rfl, hloop⟩
  · exact ⟨haddsOf (by simp), hremovesOf (by simp), hspawned⟩
  · refine ⟨fun c' => ?_, hremovesOf (by simp), by simp [answer]⟩
    have hcount := hadds c'
    by_cases heq : c' = c
    · subst heq
      simpa [answer, hmain] using hcount
    · simpa [answer, hmain, heq, Ne.symm heq] using hcount
  · refine ⟨haddsOf (by simp), fun c' => ?_, fun c' hmain => ?_⟩
    · have hcount := hremoves c'
      by_cases heq : c' = c
      · subst heq
        simpa [answer, hloop] using hcount
      · simpa [answer, heq, Ne.symm heq] using hcount
    · by_cases heq : c' = c
      · simp [answer, heq]
      · simpa [answer, heq] using hspawned c' hmain

theorem coherent_of_run (hrun : (machine address).RunWith G start tr s) : Coherent address s := by
  refine hrun.invariant (I := fun _ s => Coherent address s) coherent_start ?_
  rintro tr s i s' e hrun hinv hs _
  cases stepped_of_step hs with
  | @connected c he hmain hloop hs' =>
      subst hs'
      have hawaiting := update_eq_iff_of_ne (show s.loop c ≠ .awaitingRemoval by simp [hloop])
        (show LoopPhase.running ≠ .awaitingRemoval by simp)
      refine ⟨by simpa [hmain] using hinv.adds, fun c' => ?_, by simp⟩
      simp only [hawaiting]
      exact hinv.removes c'
  | @postedAdd c he hmain hs' =>
      subst hs'
      refine ⟨fun c' => ?_, by simpa using hinv.removes, fun c' hc' => ?_⟩
      · have hcount := hinv.adds c'
        by_cases h : c' = c
        · subst h
          simpa [hmain, List.count_append] using hcount
        · simpa [hmain, List.count_append, h, Ne.symm h] using hcount
      · obtain rfl : c = c' := by simpa using hc'
        exact hinv.spawned c (Or.inl hmain)
  | @finished c he hloop hs' =>
      subst hs'
      have hawaiting := update_eq_iff_of_ne (show s.loop c ≠ .awaitingRemoval by simp [hloop])
        (show LoopPhase.removing ≠ .awaitingRemoval by simp)
      have habsent := update_eq_iff_of_ne (show s.loop c ≠ .absent by simp [hloop])
        (show LoopPhase.removing ≠ .absent by simp)
      refine ⟨hinv.adds, fun c' => ?_, fun c' hmain => ?_⟩
      · simp only [hawaiting]
        exact hinv.removes c'
      · exact (habsent c').not.mpr (hinv.spawned c' hmain)
  | @postedRemove c he hloop hs' =>
      subst hs'
      have habsent := update_eq_iff_of_ne (show s.loop c ≠ .absent by simp [hloop])
        (show LoopPhase.awaitingRemoval ≠ .absent by simp)
      refine ⟨by simpa using hinv.adds, fun c' => ?_, fun c' hmain => ?_⟩
      · have hcount := hinv.removes c'
        by_cases h : c' = c
        · subst h
          simpa [hloop, List.count_append] using hcount
        · simpa [h, List.count_append, Ne.symm h] using hcount
      · exact (habsent c').not.mpr (hinv.spawned c' hmain)
  | postedGet he hs' =>
      subst hs'
      exact ⟨by simpa using hinv.adds, by simpa using hinv.removes, hinv.spawned⟩
  | @processed message rest he hqueue hs' =>
      subst hs'
      exact coherent_processed hinv (proper_of_queue hrun message (by simp [hqueue])) hqueue

/-- How often a connection has posted, by where its tasks stand. -/
structure PostCounts (address : C → String) (tr : List (Event C)) (s : Registration C) : Prop where
  adds : ∀ c, (posted tr).count (.add (address c) c) =
    if s.loop c = .absent ∨ s.main = .adding c then 0 else 1
  removes : ∀ c, (posted tr).count (.remove (address c) c) =
    if s.loop c = .awaitingRemoval ∨ s.loop c = .ended then 1 else 0

/-- The counts stay with a step that posts nothing, leaves nobody adding and moves no event loop from
or to the phases they depend on. -/
theorem PostCounts.of_posted_eq {tr' : List (Event C)} (h : PostCounts address tr s)
    (hposted : posted tr' = posted tr)
    (hadding : ∀ c, (s'.loop c = .absent ∨ s'.main = .adding c) ↔
      (s.loop c = .absent ∨ s.main = .adding c))
    (hremoved : ∀ c, (s'.loop c = .awaitingRemoval ∨ s'.loop c = .ended) ↔
      (s.loop c = .awaitingRemoval ∨ s.loop c = .ended)) : PostCounts address tr' s' := by
  constructor
  · intro c
    simp only [hposted, hadding]
    exact h.adds c
  · intro c
    simp only [hposted, hremoved]
    exact h.removes c

theorem postCounts_of_run (hrun : (machine address).RunWith G start tr s) :
    PostCounts address tr s := by
  refine hrun.invariant ⟨by simp [posted, start], by simp [posted, start]⟩ ?_
  rintro tr s i s' e hrun hinv hs _
  have hcoherent := coherent_of_run hrun
  cases stepped_of_step hs with
  | @connected c he hmain hloop hs' =>
      subst he hs'
      refine hinv.of_posted_eq posted_connected (fun c' => ?_) (fun c' => ?_)
      · by_cases h : c' = c
        · simp [h, hloop]
        · simp [h, Ne.symm h, hmain]
      · by_cases h : c' = c
        · simp [h, hloop]
        · simp [h]
  | @postedAdd c he hmain hs' =>
      subst he hs'
      refine ⟨fun c' => ?_, fun c' => by simpa using hinv.removes c'⟩
      have hcount := hinv.adds c'
      by_cases h : c' = c
      · subst h
        simpa [hmain, List.count_append, hcoherent.spawned c' (Or.inl hmain)] using hcount
      · simpa [hmain, List.count_append, h, Ne.symm h] using hcount
  | @finished c he hloop hs' =>
      subst he hs'
      refine hinv.of_posted_eq posted_finished (fun c' => ?_) (fun c' => ?_)
      all_goals
        by_cases h : c' = c
        · simp [h, hloop]
        · simp [h]
  | @postedRemove c he hloop hs' =>
      subst he hs'
      refine ⟨fun c' => ?_, fun c' => ?_⟩
      · have hcount := hinv.adds c'
        by_cases h : c' = c
        · subst h
          simpa [hloop] using hcount
        · simpa [h] using hcount
      · have hcount := hinv.removes c'
        by_cases h : c' = c
        · subst h
          simpa [hloop, List.count_append] using hcount
        · simpa [h, List.count_append, Ne.symm h] using hcount
  | postedGet he hs' =>
      subst he hs'
      exact ⟨fun c' => by simpa using hinv.adds c', fun c' => by simpa using hinv.removes c'⟩
  | @processed message rest he hqueue hs' =>
      subst he hs'
      have hproper := proper_of_queue hrun message (by simp [hqueue])
      rcases hcoherent.head hproper hqueue with rfl | ⟨c, rfl, hmain⟩ | ⟨c, rfl, hloop⟩
      · exact hinv.of_posted_eq posted_processed (fun _ => Iff.rfl) (fun _ => Iff.rfl)
      · exact hinv.of_posted_eq posted_processed (by simp [answer, hmain]) (fun _ => Iff.rfl)
      · refine hinv.of_posted_eq posted_processed (fun c' => ?_) (fun c' => ?_)
        all_goals
          by_cases h : c' = c
          · simp [answer, h, hloop]
          · simp [answer, h]

/-! ## Event loops that never end -/

/-- No event loop has ended. -/
def Unfinished (s : Registration C) : Prop := ∀ c, s.loop c = .absent ∨ s.loop c = .running

/-- While no event loop has ended, nothing but a new connection and the end of an event loop moves
one. -/
theorem loop_of_unfinished {e : Event C} (hrun : (machine address).RunWith G start tr s)
    (hunfinished : s.Unfinished) (hst : Stepped address s e s') (hfinish : ∀ c, e ≠ .finished c) :
    ((∀ c, e ≠ .connected c) ∧ s'.loop = s.loop) ∨
      ∃ c, e = .connected c ∧ s'.loop = Function.update s.loop c .running := by
  cases hst with
  | @connected c he _ _ hs' => exact Or.inr ⟨c, he, by rw [hs']⟩
  | postedAdd he _ hs' => exact Or.inl ⟨by simp [he], by rw [hs']⟩
  | @finished c he => exact absurd he (hfinish c)
  | @postedRemove c _ hloop => rcases hunfinished c with h | h <;> simp [hloop] at h
  | postedGet he hs' => exact Or.inl ⟨by simp [he], by rw [hs']⟩
  | @processed message rest he hqueue hs' =>
      refine Or.inl ⟨by simp [he], ?_⟩
      have hproper := proper_of_queue hrun message (by simp [hqueue])
      rcases (coherent_of_run hrun).head hproper hqueue with rfl | ⟨c, rfl, -⟩ | ⟨c, rfl, hloop⟩
      · rw [hs']
        rfl
      · rw [hs']
        rfl
      · rcases hunfinished c with h | h <;> simp [hloop] at h

/-- While no event loop has ended, no Remove was posted. -/
theorem remove_notMem_posted (hrun : (machine address).RunWith G start tr s)
    (hunfinished : s.Unfinished) (a : String) (caller : C) : .remove a caller ∉ posted tr := by
  intro hmem
  obtain hget | ⟨c, hadd | hremove⟩ := proper_of_posted hrun _ hmem
  · cases hget
  · cases hadd
  · have hcount := (postCounts_of_run hrun).removes c
    rw [← hremove] at hcount
    have hpos := List.count_pos_iff.mpr hmem
    rcases hunfinished c with h | h <;> simp [h] at hcount <;> omega

/-! ## Add before Remove -/

omit [DecidableEq C] in
/-- Where a pair sits in a list with one more element. -/
theorem pair_sublist_snoc {x y m : MembershipMessage C} {l : List (MembershipMessage C)} :
    [x, y].Sublist (l ++ [m]) ↔ [x, y].Sublist l ∨ (x ∈ l ∧ y = m) := by
  have hreverse : [x, y].Sublist l ↔ [y, x].Sublist l.reverse := by
    rw [← List.reverse_sublist]
    rfl
  rw [← List.reverse_sublist, hreverse]
  simp [List.cons_sublist_cons', and_comm]

omit [DecidableEq C] in
/-- A pair whose second element is not in the rest of a list sits in its first part. -/
theorem pair_sublist_append {x y : MembershipMessage C} {l rest : List (MembershipMessage C)}
    (h : y ∉ rest) : [x, y].Sublist (l ++ rest) ↔ [x, y].Sublist l := by
  induction rest using List.reverseRecOn with
  | nil => simp
  | append_singleton rest m ih =>
      have hne : y ≠ m := fun heq => h (by simp [heq])
      rw [← List.append_assoc, pair_sublist_snoc, ih fun hmem => h (by simp [hmem])]
      simp [hne]

/-- If the messages about an address are one Add and one Remove of its connection, then the address
is free afterwards exactly when the Add came first. -/
theorem lookup_after_eq_none_iff {a : String} {c : C} {messages : List (MembershipMessage C)}
    (habout : ∀ m ∈ messages, (∀ c', m = .add a c' → c' = c) ∧ (∀ c', m = .remove a c' → c' = c))
    (hadd : .add a c ∈ messages) (hremove : .remove a c ∈ messages)
    (haddOnce : messages.count (.add a c) ≤ 1) :
    (MembershipActor.after messages).lookup a = none ↔
      [MembershipMessage.add a c, .remove a c].Sublist messages := by
  induction messages using List.reverseRecOn with
  | nil => cases hadd
  | append_singleton messages m ih =>
      rw [MembershipActor.after_snoc, pair_sublist_snoc]
      by_cases hisAdd : m = .add a c
      · -- the last message is the Add, so no Add precedes it
        subst hisAdd
        have hfirst : .add a c ∉ messages := by
          rw [← List.count_eq_zero]
          simpa [List.count_append] using haddOnce
        have hnot : ¬[MembershipMessage.add a c, .remove a c].Sublist messages := fun hsub =>
          hfirst (hsub.subset List.mem_cons_self)
        simp [hnot]
      · by_cases hisRemove : m = .remove a c
        · subst hisRemove
          have hbefore : .add a c ∈ messages := by simpa using hadd
          simp [hbefore]
        · have hlast := habout m (by simp)
          have hkept : (MembershipActor.handle (MembershipActor.after messages) m).1.lookup a =
              (MembershipActor.after messages).lookup a := by
            apply MembershipActor.lookup_handle_of_ne
            · intro c' heq
              exact hisAdd (by rw [heq, hlast.1 c' heq])
            · intro c' heq
              exact hisRemove (by rw [heq, hlast.2 c' heq])
          rw [hkept, ih (fun m' hm' => habout m' (List.mem_append_left _ hm'))
            (by simpa [Ne.symm hisAdd] using hadd) (by simpa [Ne.symm hisRemove] using hremove)
            (by simpa [List.count_append, hisAdd] using haddOnce)]
          simp [Ne.symm hisRemove]

/-- **After both messages of a connection have been handled its address is free exactly when the Add
was posted before the Remove.** -/
theorem notMem_keys_iff (hrun : (machine address).Run start tr s)
    (hinjective : Function.Injective address) {c : C}
    (hadd : .add (address c) c ∈ processed tr) (hremove : .remove (address c) c ∈ processed tr) :
    address c ∉ s.members.keys ↔
      [MembershipMessage.add (address c) c, .remove (address c) c].Sublist (posted tr) := by
  obtain ⟨hposted, hmembers⟩ := posted_eq hrun
  have hcounts := postCounts_of_run hrun
  -- each message is posted at most once, so a Remove that was handled is not queued again
  have haddOnce : (processed tr).count (.add (address c) c) ≤ 1 := by
    have hle := hcounts.adds c
    rw [hposted, List.count_append] at hle
    split at hle <;> omega
  have hunqueued : .remove (address c) c ∉ s.queue := by
    have hle := hcounts.removes c
    rw [hposted, List.count_append] at hle
    have hpos := List.count_pos_iff.mpr hremove
    rw [← List.count_eq_zero]
    split at hle <;> omega
  have habout : ∀ m ∈ processed tr, (∀ c', m = .add (address c) c' → c' = c) ∧
      (∀ c', m = .remove (address c) c' → c' = c) := by
    intro m hm
    have hproper := proper_of_posted hrun m (by rw [hposted]; exact List.mem_append_left _ hm)
    constructor
    all_goals
      rintro c' rfl
      rcases hproper with h | ⟨c'', h | h⟩
      all_goals simp at h
      exact hinjective (by rw [h.2, ← h.1])
  rw [hposted, pair_sublist_append hunqueued, ← lookup_after_eq_none_iff habout hadd hremove haddOnce,
    ← hmembers, HashMap.mem_keys_iff_lookup]
  simp [Option.eq_none_iff_forall_ne_some]

/-- One connection, whose event loop ends and posts its Remove before the main task posts its Add. -/
def removedFirst : List (Input Unit) :=
  [.connect (), .finish (), .postRemove (), .postAdd, .process, .process]

theorem staleMember_removedFirst :
    ∃ tr s, (machine fun _ : Unit => "127.0.0.1:6680").exec start removedFirst = some (s, tr) ∧
      .add "127.0.0.1:6680" () ∈ processed tr ∧ .remove "127.0.0.1:6680" () ∈ processed tr ∧
      "127.0.0.1:6680" ∈ s.members.keys :=
  ⟨_, _, rfl, by decide, by decide, by decide⟩

/-- One connection that is added before its event loop ends. -/
def addedFirst : List (Input Unit) :=
  [.connect (), .postAdd, .process, .finish (), .postRemove (), .process]

theorem notMem_keys_iff_addedFirst :
    ∃ tr s, (machine fun _ : Unit => "127.0.0.1:6680").exec start addedFirst = some (s, tr) ∧
      ("127.0.0.1:6680" ∉ s.members.keys ↔
        [MembershipMessage.add "127.0.0.1:6680" (), .remove "127.0.0.1:6680" ()].Sublist
          (posted tr)) := by
  have hexec : (machine fun _ : Unit => "127.0.0.1:6680").exec start addedFirst = some (_, _) := rfl
  refine ⟨_, _, hexec, ?_⟩
  exact notMem_keys_iff (Machine.run_of_exec hexec) (fun _ _ _ => rfl) (by decide) (by decide)

end Order

/-! ## One connection at an address -/

section Ownership

variable [DecidableEq C] {address : C → String} {tr : List (Event C)} {s s' : Registration C}
  {e : Event C}

/-- The event loop of a connection has not been spawned, or has ended. -/
def Inactive (s : Registration C) (c : C) : Prop := s.loop c = .absent ∨ s.loop c = .ended

/-- No other connection with the address of `c` is active. -/
def Alone (address : C → String) (s : Registration C) (c : C) : Prop :=
  ∀ c', c' ≠ c → address c' = address c → s.Inactive c'

/-- A connection is opened only under an address that is neither registered nor in use. -/
def Vacant (address : C → String) (s : Registration C) (e : Event C) : Prop :=
  ∀ c, e = .connected c → address c ∉ s.members.keys ∧ s.Alone address c

instance [Fintype C] (s : Registration C) (e : Event C) : Decidable (Vacant address s e) :=
  inferInstanceAs (Decidable (∀ c, e = .connected c → address c ∉ s.members.keys ∧
    ∀ c', c' ≠ c → address c' = address c → s.loop c' = .absent ∨ s.loop c' = .ended))

/-- **Clean-up of one connection never unregisters another**: a Remove takes out nothing or its own
connection's handle, and a connection that was registered and is still open is registered. -/
structure OwnHandles (address : C → String) (tr : List (Event C)) (s : Registration C) : Prop where
  removed : ∀ a c handle, .processed (.remove a c) (some handle) ∈ tr → handle = c
  registered : ∀ c, s.loop c = .running → .add (address c) c ∈ processed tr →
    s.members.lookup (address c) = some c

/-- Only a new connection becomes active. -/
theorem inactive_step {c : C} (hst : Stepped address s e s') (h : s.Inactive c)
    (hne : e ≠ .connected c) : s'.Inactive c := by
  cases hst with
  | @connected c' he _ _ hs' =>
      have hother : c ≠ c' := fun heq => hne (heq ▸ he)
      simpa [hs', Inactive, hother] using h
  | postedAdd _ _ hs' => simpa [hs', Inactive] using h
  | @finished c' _ hloop hs' =>
      have hother : c ≠ c' := by
        rintro rfl
        rcases h with h | h <;> simp [hloop] at h
      simpa [hs', Inactive, hother] using h
  | @postedRemove c' _ hloop hs' =>
      have hother : c ≠ c' := by
        rintro rfl
        rcases h with h | h <;> simp [hloop] at h
      simpa [hs', Inactive, hother] using h
  | postedGet _ hs' => simpa [hs', Inactive] using h
  | @processed message rest _ _ hs' =>
      cases message with
      | add nodeId handle => simpa [hs', Inactive, answer] using h
      | getMembers => simpa [hs', Inactive, answer] using h
      | remove nodeId caller =>
          by_cases hcaller : c = caller
          · simp [hs', Inactive, answer, hcaller]
          · simpa [hs', Inactive, answer, hcaller] using h

/-- What keeps the handles apart: the owner of an entry, and the connection the main task is adding,
are alone at their address. -/
structure Apart (address : C → String) (s : Registration C) : Prop where
  owner : ∀ a c, s.members.lookup a = some c → a = address c ∧ s.Alone address c
  pending : ∀ c, s.main = .adding c ∨ s.main = .awaiting c → s.Alone address c
  active : ∀ c, ¬s.Inactive c → s.Alone address c

theorem alone_step {c : C} (hst : Stepped address s e s') (h : s.Alone address c)
    (hnew : ∀ c', e = .connected c' → c' ≠ c → address c' ≠ address c) : s'.Alone address c :=
  fun c' hne haddress =>
    inactive_step hst (h c' hne haddress) fun heq => hnew c' heq hne haddress

/-- An entry is old, or it is the one the main task waits for. -/
theorem lookup_of_stepped {a : String} {c : C} (hcoherent : Coherent address s)
    (hproper : ∀ m ∈ s.queue, Proper address m) (hst : Stepped address s e s')
    (h : s'.members.lookup a = some c) :
    s.members.lookup a = some c ∨
      (s.main = .awaiting c ∧ a = address c ∧ ∀ c', e ≠ .connected c') := by
  rcases members_cases hst with ⟨-, hmembers⟩ | ⟨message, rest, he, hqueue, hmembers⟩
  · rw [hmembers] at h
    exact Or.inl h
  · rw [hmembers] at h
    rcases hcoherent.head (hproper message (by simp [hqueue])) hqueue
      with rfl | ⟨c', rfl, hmain⟩ | ⟨c', rfl, -⟩
    · exact Or.inl h
    · by_cases ha : a = address c'
      · subst ha
        obtain rfl : c' = c := by simpa using h
        exact Or.inr ⟨hmain, rfl, by simp [he]⟩
      · refine Or.inl ?_
        rwa [MembershipActor.lookup_handle_of_ne (by simp [Ne.symm ha]) (by simp)] at h
    · by_cases ha : a = address c'
      · subst ha
        simp at h
      · refine Or.inl ?_
        rwa [MembershipActor.lookup_handle_of_ne (by simp) (by simp [Ne.symm ha])] at h

/-- The main task goes on with the connection it has, or opens a new one. -/
theorem main_of_stepped {c : C} (hst : Stepped address s e s')
    (h : s'.main = .adding c ∨ s'.main = .awaiting c) :
    ((s.main = .adding c ∨ s.main = .awaiting c) ∧ ∀ c', e ≠ .connected c') ∨
      e = .connected c := by
  cases hst with
  | connected he _ _ hs' =>
      right
      simpa [hs', he] using h
  | postedAdd he hmain hs' =>
      left
      refine ⟨Or.inl ?_, by simp [he]⟩
      simpa [hs', hmain] using h
  | finished he _ hs' => exact Or.inl ⟨by simpa [hs'] using h, by simp [he]⟩
  | postedRemove he _ hs' => exact Or.inl ⟨by simpa [hs'] using h, by simp [he]⟩
  | postedGet he hs' => exact Or.inl ⟨by simpa [hs'] using h, by simp [he]⟩
  | @processed message rest he _ hs' =>
      left
      refine ⟨?_, by simp [he]⟩
      cases message with
      | add nodeId handle => simp [hs', answer] at h
      | remove nodeId caller => simpa [hs', answer] using h
      | getMembers => simpa [hs', answer] using h

theorem apart_step (hcoherent : Coherent address s) (hproper : ∀ m ∈ s.queue, Proper address m)
    (hst : Stepped address s e s') (hvacant : Vacant address s e) (h : Apart address s) :
    Apart address s' := by
  refine ⟨fun a c hlookup => ?_, fun c hmain => ?_, fun c hactive => ?_⟩
  · rcases lookup_of_stepped hcoherent hproper hst hlookup with hold | ⟨hmain, rfl, hold⟩
    · obtain ⟨rfl, halone⟩ := h.owner a c hold
      refine ⟨rfl, alone_step hst halone fun c' he _ haddress => ?_⟩
      -- a new connection does not take an address that has an entry
      apply (hvacant c' he).1
      rw [haddress]
      exact (HashMap.mem_keys_iff_lookup _ _).mpr ⟨c, hold⟩
    · exact ⟨rfl, alone_step hst (h.pending c (Or.inr hmain)) fun c' he => absurd he (hold c')⟩
  · rcases main_of_stepped hst hmain with ⟨hold, hother⟩ | he
    · exact alone_step hst (h.pending c hold) fun c' he => absurd he (hother c')
    · refine alone_step hst (hvacant c he).2 fun c' he' hne => ?_
      rw [he] at he'
      exact absurd (Event.connected.inj he').symm hne
  · by_cases hold : s.Inactive c
    · -- only a new connection becomes active
      have he : e = .connected c := by
        by_contra hne
        exact hactive (inactive_step hst hold hne)
      refine alone_step hst (hvacant c he).2 fun c' he' hne => ?_
      rw [he] at he'
      exact absurd (Event.connected.inj he').symm hne
    · refine alone_step hst (h.active c hold) fun c' he hne haddress => ?_
      exact hold ((hvacant c' he).2 c (Ne.symm hne) haddress.symm)

theorem apart_of_run (hrun : (machine address).RunWith (Vacant address) start tr s) :
    Apart address s := by
  refine hrun.invariant (I := fun _ s => Apart address s)
    ⟨by simp [start], by simp [start], by simp [start, Inactive]⟩ ?_
  intro tr s i s' e hrun hinv hs hvacant
  exact apart_step (coherent_of_run hrun) (proper_of_queue hrun) (stepped_of_step hs) hvacant hinv

omit [DecidableEq C] in
/-- A running connection is not inactive. -/
theorem not_inactive_of_running {c : C} (h : s.loop c = .running) : ¬s.Inactive c := by
  rintro (habsent | hended)
  · rw [h] at habsent
    cases habsent
  · rw [h] at hended
    cases hended

/-- A running event loop was running before, or is spawned now. -/
theorem running_of_stepped {c : C} (hst : Stepped address s e s') (h : s'.loop c = .running) :
    s.loop c = .running ∨ e = .connected c := by
  cases hst with
  | @connected c' he _ _ hs' =>
      by_cases hc : c = c'
      · exact Or.inr (hc ▸ he)
      · exact Or.inl (by simpa [hs', hc] using h)
  | postedAdd _ _ hs' => exact Or.inl (by simpa [hs'] using h)
  | @finished c' _ _ hs' =>
      by_cases hc : c = c'
      · simp [hs', hc] at h
      · exact Or.inl (by simpa [hs', hc] using h)
  | @postedRemove c' _ _ hs' =>
      by_cases hc : c = c'
      · simp [hs', hc] at h
      · exact Or.inl (by simpa [hs', hc] using h)
  | postedGet _ hs' => exact Or.inl (by simpa [hs'] using h)
  | @processed message rest _ _ hs' =>
      cases message with
      | add nodeId handle => exact Or.inl (by simpa [hs', answer] using h)
      | getMembers => exact Or.inl (by simpa [hs', answer] using h)
      | remove nodeId caller =>
          by_cases hc : c = caller
          · simp [hs', answer, hc] at h
          · exact Or.inl (by simpa [hs', answer, hc] using h)

/-- What a Remove takes out belongs to its caller: the caller is active, and the owner of the entry is
alone at its address. -/
theorem removed_of_stepped {a : String} {c handle : C} (hcoherent : Coherent address s)
    (hproper : ∀ m ∈ s.queue, Proper address m) (hapart : Apart address s)
    (hst : Stepped address s (.processed (.remove a c) (some handle)) s') : handle = c := by
  rcases members_cases hst with ⟨hnot, -⟩ | ⟨message, rest, he, hqueue, -⟩
  · exact absurd rfl (hnot _ _)
  · obtain ⟨rfl, htaken⟩ := Event.processed.inj he
    have hlookup : s.members.lookup a = some handle := htaken.symm
    obtain ⟨rfl, halone⟩ := hapart.owner a handle hlookup
    rcases hcoherent.head (hproper _ (by simp [hqueue])) hqueue with h | ⟨c', h, -⟩ | ⟨c', h, hloop⟩
    · cases h
    · cases h
    · obtain ⟨haddress, rfl⟩ := MembershipMessage.remove.inj h
      by_contra hne
      rcases halone c (Ne.symm hne) haddress.symm with h | h <;> simp [hloop] at h

/-- A message about another connection leaves the entry of a running one alone. -/
theorem lookup_of_processed {c : C} {message : MembershipMessage C}
    {rest : List (MembershipMessage C)} (hcoherent : Coherent address s)
    (hproper : ∀ m ∈ s.queue, Proper address m) (hapart : Apart address s)
    (hqueue : s.queue = message :: rest) (hrunning : s.loop c = .running)
    (hother : message ≠ .add (address c) c) :
    (MembershipActor.handle s.members message).1.lookup (address c) =
      s.members.lookup (address c) := by
  have hactive := not_inactive_of_running hrunning
  rcases hcoherent.head (hproper message (by simp [hqueue])) hqueue
    with rfl | ⟨c', rfl, hmain⟩ | ⟨c', rfl, hloop⟩
  · rfl
  · apply MembershipActor.lookup_handle_of_ne
    · intro h heq
      obtain ⟨haddress, rfl⟩ := MembershipMessage.add.inj heq
      have hne : c ≠ c' := fun hc => hother (by rw [hc])
      exact hactive (hapart.pending c' (Or.inr hmain) c hne haddress.symm)
    · simp
  · apply MembershipActor.lookup_handle_of_ne
    · simp
    · intro caller heq
      obtain ⟨haddress, rfl⟩ := MembershipMessage.remove.inj heq
      have hne : c ≠ c' := by
        rintro rfl
        rw [hrunning] at hloop
        cases hloop
      refine hactive (hapart.active c' ?_ c hne haddress.symm)
      rintro (h | h) <;> simp [hloop] at h

/-- **Where every connection is opened at a vacant address, the handles stay apart.** -/
theorem ownHandles_of_run (hrun : (machine address).RunWith (Vacant address) start tr s) :
    OwnHandles address tr s := by
  refine hrun.invariant ⟨by simp, by simp [start]⟩ ?_
  intro tr s i s' e hrun hinv hs hvacant
  have hcoherent := coherent_of_run hrun
  have hproper := proper_of_queue hrun
  have hapart := apart_of_run hrun
  have hst := stepped_of_step hs
  refine ⟨fun a c handle hmem => ?_, fun c hloop hadd => ?_⟩
  · rcases List.mem_append.mp hmem with hold | hlast
    · exact hinv.removed a c handle hold
    · rw [← List.mem_singleton.mp hlast] at hst
      exact removed_of_stepped hcoherent hproper hapart hst
  · have hrunning : s.loop c = .running := by
      rcases running_of_stepped hst hloop with hold | rfl
      · exact hold
      · -- a connection that is opened now has posted nothing yet
        cases hst with
        | connected he _ habsent hs' =>
            cases he
            have hnone := (postCounts_of_run hrun).adds c
            rw [if_pos (Or.inl habsent), List.count_eq_zero, (posted_eq hrun).1] at hnone
            exact absurd (List.mem_append_left _ (by simpa using hadd)) hnone
        | _ he => cases he
    rcases members_cases hst with ⟨hnot, hmembers⟩ | ⟨message, rest, rfl, hqueue, hmembers⟩
    · rw [processed_of_ne hnot] at hadd
      rw [hmembers]
      exact hinv.registered c hrunning hadd
    · rw [hmembers]
      rw [processed_processed] at hadd
      by_cases hother : message = .add (address c) c
      · rw [hother, MembershipActor.lookup_handle_add]
      · rw [lookup_of_processed hcoherent hproper hapart hqueue hrunning hother]
        exact hinv.registered c hrunning (by simpa [Ne.symm hother] using hadd)

/-- Two connections with one address, as from a seed that is listed twice.  The second registers, the
first one closes. -/
def repeatedSeed : List (Input Bool) :=
  [.connect false, .postAdd, .process, .connect true, .postAdd, .process, .finish false,
    .postRemove false, .process]

/-- Each of the two connections loses its entry to the other while it is open. -/
theorem unregistered_repeatedSeed :
    -- the second Add takes the entry of the first connection,
    (∃ tr s, (machine fun _ : Bool => "127.0.0.1:6680").exec start (repeatedSeed.take 6) = some (s, tr) ∧
      s.loop false = .running ∧ .add "127.0.0.1:6680" false ∈ processed tr ∧
      s.members.lookup "127.0.0.1:6680" = some true) ∧
    -- and the Remove of the first connection takes it from the second
    ∃ tr s, (machine fun _ : Bool => "127.0.0.1:6680").exec start repeatedSeed = some (s, tr) ∧
      .processed (.remove "127.0.0.1:6680" false) (some true) ∈ tr ∧
      s.loop true = .running ∧ .add "127.0.0.1:6680" true ∈ processed tr ∧
      s.members.lookup "127.0.0.1:6680" = none :=
  ⟨⟨_, _, rfl, rfl, by decide, rfl⟩, ⟨_, _, rfl, by decide, rfl, by decide, rfl⟩⟩

/-- The second connection is opened after the first one has left. -/
def seedAgain : List (Input Bool) :=
  [.connect false, .postAdd, .process, .finish false, .postRemove false, .process, .connect true,
    .postAdd, .process]

theorem ownHandles_of_run_seedAgain :
    ∃ tr s, (machine fun _ : Bool => "127.0.0.1:6680").exec start seedAgain = some (s, tr) ∧
      s.members.lookup "127.0.0.1:6680" = some true ∧
      OwnHandles (fun _ => "127.0.0.1:6680") tr s := by
  have hexec : (machine fun _ : Bool => "127.0.0.1:6680").execWith
    (fun s e => decide (Vacant (fun _ => "127.0.0.1:6680") s e)) start seedAgain = some (_, _) := rfl
  refine ⟨_, _, rfl, rfl, ownHandles_of_run ?_⟩
  exact (Machine.runWith_of_execWith hexec).mono fun _ _ => of_decide_eq_true

end Ownership

end Registration

end FrostFederation.Node
