/-
# FrostFederation.Node.Lifecycle — what becomes of a connection whose actor has returned.

A node with all its connections.  Each connection is three tasks: the connection actor and the
reliable sender (`Connection.Stack`), and the event loop, whose registration and clean-up are those
of `Node.Registration`.  Clean-up is triggered by channels that close: the event loop ends when every
`client_tx` is gone, and only then posts the Remove of its connection.

Who holds which end decides whether that ever happens.  The only `client_tx` is in the reliable
sender; its loop has no exit, since the `else` branch of its `select!` only logs.  Even that branch
needs every handle of the reliable sender to be gone, and the event loop itself has one.  So every
end stays in place (`intact_of_run`), no Remove is ever posted, and the membership holds, under each
address, the connection that was registered there last, whether its connection actor still runs or
not.
-/
import FrostFederation.Connection.Stack
import FrostFederation.Node.Registration

namespace FrostFederation.Node

open FrostFederation.Lib
open FrostFederation.Lib.Serde (Format)
open FrostFederation.Protocol (MessageId)
open FrostFederation.EchoBroadcast (ReliableSenderMap)
open FrostFederation.Connection (NoiseIo NoiseHandler Snow Stack StackInput StackEvent bareValues noSecret)

/-! ## The node and its connections -/

structure Lifecycle (C N : Type) where
  registration : Registration C
  /-- The connection actor and the reliable sender of a connection that was opened. -/
  stack : C → Option (Stack N)
  /-- The event loop is between two calls of `recv`. -/
  responding : C → Bool
  /-- Answers to `get_members` that somebody still has. -/
  snapshots : List (ReliableSenderMap C)
  /-- The map of the echo broadcast actor. -/
  reliableSenders : HashMap MessageId (ReliableSenderMap C)

namespace Lifecycle

inductive Input (C N B : Type) where
  /-- A seed or a peer: the stack is started and the event loop spawned. -/
  | connect (c : C) (noise : N)
  | postAdd
  | postRemove (c : C)
  | postGet
  | process
  /-- `recv` yields `None` to the event loop. -/
  | finish (c : C)
  /-- A step in the stack of a connection. -/
  | stack (c : C) (i : StackInput B)
  /-- The event loop has dealt with a message, or its timeout has passed. -/
  | responded (c : C)
  /-- The echo broadcast actor stores a snapshot under a message id. -/
  | store (id : MessageId) (n : Nat)
  | discard (n : Nat)

inductive Event (C B : Type) where
  | registered (e : Registration.Event C)
  | stack (c : C) (e : StackEvent B)
  | responded (c : C)
  | stored (id : MessageId)
  | discarded

variable {C N B : Type}

def start : Lifecycle C N := ⟨.start, fun _ => none, fun _ => false, [], ∅⟩

/-- The membership shows itself to whoever asked for it. -/
def reply (members : ReliableSenderMap C) : Registration.Event C → List (ReliableSenderMap C)
  | .processed .getMembers _ => [members]
  | _ => []

variable [DecidableEq C]

/-- A handle of the connection is among the members. -/
def among (members : ReliableSenderMap C) (c : C) : Bool := members.entries.any fun entry => entry.2 = c

/-- Somebody has a handle of the connection's reliable sender: its event loop, the main task or the
Add it has posted, the membership, a snapshot of it, or the echo broadcast actor. -/
def held (s : Lifecycle C N) (c : C) : Bool :=
  (s.registration.loop c != .absent && s.registration.loop c != .ended) ||
    s.registration.main == .adding c ||
    s.registration.queue.any (fun
      | .add _ handle => handle = c
      | _ => false) ||
    among s.registration.members c ||
    s.snapshots.any (among · c) ||
    s.reliableSenders.entries.any (fun entry => among entry.2 c)

/-- What the other tasks of the node let a stack do: a request needs a handle, the event loop takes
one message at a time, and an end is dropped with its last holder. -/
def allows (s : Lifecycle C N) (c : C) (st : Stack N) : StackInput B → Bool
  | .request _ => s.held c
  | .closeRequests => !st.requestsClosed && !s.held c
  | .consume => s.registration.loop c == .running && !s.responding c
  | .closeClient => st.clientOpen && s.registration.loop c == .ended
  | _ => true

/-- `recv` yields `None`: nothing is buffered, and the task that had the sender is gone. -/
def drained (s : Lifecycle C N) (c : C) : Bool :=
  match s.stack c with
  | some st => !s.responding c && st.client.isEmpty && st.senderEnded
  | none => false

/-- The event loop that takes a message goes on to respond to it. -/
def taken (responding : C → Bool) (c : C) : StackInput B → C → Bool
  | .consume => Function.update responding c true
  | _ => responding

/-- A step of the registration. -/
def register (address : C → String) (s : Lifecycle C N) (i : Registration.Input C) :
    Option (Lifecycle C N × Event C B) :=
  ((Registration.machine address).step s.registration i).map fun r =>
    ({ s with registration := r.1, snapshots := s.snapshots ++ reply s.registration.members r.2 },
      .registered r.2)

/-- What an event shows of the registration. -/
def Event.registration : Event C B → Option (Registration.Event C)
  | .registered e => some e
  | _ => none

theorem register_eq_some {address : C → String} {s s' : Lifecycle C N} {i : Registration.Input C}
    {e : Event C B} (h : s.register address i = some (s', e)) :
    ∃ e', e.registration = some e' ∧
      (Registration.machine address).step s.registration i = some (s'.registration, e') ∧
      s'.stack = s.stack := by
  obtain ⟨r, hs, heq⟩ := Option.map_eq_some_iff.mp h
  obtain ⟨rfl, rfl⟩ := Prod.mk.inj heq
  exact ⟨r.2, rfl, hs, rfl⟩

variable [NoiseIo N B] (flexbuffers : Format B) (address : C → String)

def step (s : Lifecycle C N) : Input C N B → Option (Lifecycle C N × Event C B)
  | .connect c noise =>
      { s with stack := Function.update s.stack c (some (.start noise)) }.register address (.connect c)
  | .postAdd => s.register address .postAdd
  | .postRemove c => s.register address (.postRemove c)
  | .postGet => s.register address .postGet
  | .process => s.register address .process
  | .finish c => if s.drained c then s.register address (.finish c) else none
  | .stack c i =>
      match s.stack c with
      | none => none
      | some st =>
          if s.allows c st i then
            ((Stack.machine flexbuffers).step st i).map fun r =>
              ({ s with
                stack := Function.update s.stack c (some r.1)
                responding := taken s.responding c i }, .stack c r.2)
          else none
  | .responded c =>
      if s.responding c then
        some ({ s with responding := Function.update s.responding c false }, .responded c)
      else none
  | .store id n =>
      s.snapshots[n]?.map fun members =>
        ({ s with
          snapshots := s.snapshots.eraseIdx n
          reliableSenders := s.reliableSenders.insert id members }, .stored id)
  | .discard n =>
      if n < s.snapshots.length then
        some ({ s with snapshots := s.snapshots.eraseIdx n }, .discarded)
      else none

def machine : Machine (Lifecycle C N) (Input C N B) (Event C B) := ⟨step flexbuffers address⟩

/-! ## What one step can do -/

/-- The four things a step can be. -/
inductive Stepped (s : Lifecycle C N) (e : Event C B) (s' : Lifecycle C N) : Prop
  | connected {c : C} {noise : N} {e' : Registration.Event C} (he : e.registration = some e')
      (hs : (Registration.machine address).step s.registration (.connect c) =
        some (s'.registration, e'))
      (hstack : s'.stack = Function.update s.stack c (some (.start noise))) : Stepped s e s'
  | registered {i : Registration.Input C} {e' : Registration.Event C}
      (he : e.registration = some e')
      (hs : (Registration.machine address).step s.registration i = some (s'.registration, e'))
      (hconnect : ∀ c, i ≠ .connect c) (hfinish : ∀ c, i = .finish c → s.drained c = true)
      (hstack : s'.stack = s.stack) : Stepped s e s'
  | inStack {c : C} {st st' : Stack N} {i : StackInput B} {e' : StackEvent B}
      (he : e.registration = none) (hst : s.stack c = some st) (hallows : s.allows c st i = true)
      (hs : (Stack.machine flexbuffers).step st i = some (st', e'))
      (hregistration : s'.registration = s.registration)
      (hstack : s'.stack = Function.update s.stack c (some st')) : Stepped s e s'
  | around (he : e.registration = none) (hregistration : s'.registration = s.registration)
      (hstack : s'.stack = s.stack) : Stepped s e s'

variable {flexbuffers address} {s s' : Lifecycle C N} {e : Event C B}

/-- A call of the registration that the state of the connections does not hold back. -/
theorem stepped_of_register {i : Registration.Input C} (h : s.register address i = some (s', e))
    (hconnect : ∀ c, i ≠ .connect c) (hfinish : ∀ c, i = .finish c → s.drained c = true) :
    Stepped flexbuffers address s e s' := by
  obtain ⟨e', he, hs, hstack⟩ := register_eq_some h
  exact .registered he hs hconnect hfinish hstack

/-- **Every step is one of the four.** -/
theorem stepped_of_step {i : Input C N B}
    (hs : (machine flexbuffers address).step s i = some (s', e)) :
    Stepped flexbuffers address s e s' := by
  cases i with
  | connect c noise =>
      obtain ⟨e', he, hs', hstack⟩ := register_eq_some hs
      exact .connected he hs' hstack
  | postAdd => exact stepped_of_register hs (by simp) (by simp)
  | postRemove c => exact stepped_of_register hs (by simp) (by simp)
  | postGet => exact stepped_of_register hs (by simp) (by simp)
  | process => exact stepped_of_register hs (by simp) (by simp)
  | finish c =>
      simp only [machine, step] at hs
      split at hs
      · next hdrained =>
          apply stepped_of_register hs (by simp)
          intro c' heq
          obtain rfl : c = c' := Registration.Input.finish.inj heq
          exact hdrained
      · cases hs
  | stack c i =>
      simp only [machine, step] at hs
      split at hs
      · cases hs
      · next st hst =>
          split at hs
          · next hallows =>
              obtain ⟨r, hs', heq⟩ := Option.map_eq_some_iff.mp hs
              obtain ⟨rfl, rfl⟩ := Prod.mk.inj heq
              exact .inStack rfl hst hallows hs' rfl rfl
          · cases hs
  | responded c =>
      simp only [machine, step] at hs
      split at hs
      · cases hs
        exact .around rfl rfl rfl
      · cases hs
  | store id n =>
      obtain ⟨members, -, heq⟩ := Option.map_eq_some_iff.mp hs
      obtain ⟨rfl, rfl⟩ := Prod.mk.inj heq
      exact .around rfl rfl rfl
  | discard n =>
      simp only [machine, step] at hs
      split at hs
      · cases hs
        exact .around rfl rfl rfl
      · cases hs

/-- The registration of a node runs as it does on its own. -/
theorem run_registration {tr : List (Event C B)}
    (hrun : (machine flexbuffers address).Run start tr s) :
    (Registration.machine address).Run .start (tr.filterMap Event.registration) s.registration := by
  refine hrun.project Lifecycle.registration Event.registration ?_
  intro s i s' e hs
  cases stepped_of_step hs with
  | connected he hs' => exact Or.inr ⟨_, _, he, hs'⟩
  | registered he hs' => exact Or.inr ⟨_, _, he, hs'⟩
  | inStack he _ _ _ hregistration => exact Or.inl ⟨he, hregistration⟩
  | around he hregistration => exact Or.inl ⟨he, hregistration⟩

/-! ## No end is ever dropped -/

/-- Every task of a connection that was opened, and every channel end it holds, is still there. -/
structure Intact (s : Lifecycle C N) : Prop where
  loop : s.registration.Unfinished
  stack : ∀ c st, s.stack c = some st →
    s.registration.loop c = .running ∧ st.senderEnded = false ∧ st.Attached

theorem Intact.held {c : C} {st : Stack N} (h : Intact s) (hst : s.stack c = some st) :
    s.held c = true := by
  simp [Lifecycle.held, (h.stack c st hst).1]

omit [DecidableEq C] in
/-- The event loop of an intact connection waits. -/
theorem Intact.not_drained (h : Intact s) (c : C) : s.drained c = false := by
  unfold drained
  split
  · next st hst => simp [(h.stack c st hst).2.1]
  · rfl

omit [NoiseIo N B] in
/-- An intact connection keeps the ends of its channels. -/
theorem Intact.allows {c : C} {st : Stack N} {i : StackInput B} (h : Intact s)
    (hst : s.stack c = some st) (hallows : s.allows c st i = true) :
    i ≠ .closeRequests ∧ i ≠ .closeClient := by
  constructor
  · rintro rfl
    simp [Lifecycle.allows, h.held hst] at hallows
  · rintro rfl
    simp [Lifecycle.allows, (h.stack c st hst).1] at hallows

/-- Opening a connection leaves the others intact. -/
theorem Intact.connected {c : C} {noise : N} (h : Intact s)
    (hloop : s'.registration.loop = Function.update s.registration.loop c .running)
    (hstack : s'.stack = Function.update s.stack c (some (.start noise))) : Intact s' := by
  constructor
  · intro c'
    rw [hloop]
    by_cases hc : c' = c
    · simp [hc]
    · simpa [hc] using h.loop c'
  · intro c' st hst
    rw [hstack] at hst
    rw [hloop]
    by_cases hc : c' = c
    · obtain rfl : Stack.start noise = st := by simpa [hc] using hst
      exact ⟨by simp [hc], rfl, rfl, rfl⟩
    · simpa [hc] using h.stack c' st (by simpa [hc] using hst)

/-- A step in a stack leaves every connection intact. -/
theorem Intact.inStack {c : C} {st st' : Stack N} {i : StackInput B} {e' : StackEvent B}
    (h : Intact s) (hst : s.stack c = some st) (hallows : s.allows c st i = true)
    (hs : (Stack.machine flexbuffers).step st i = some (st', e'))
    (hregistration : s'.registration = s.registration)
    (hstack : s'.stack = Function.update s.stack c (some st')) : Intact s' := by
  obtain ⟨hrunning, hsender, hattached⟩ := h.stack c st hst
  obtain ⟨hrequests, hclient⟩ := h.allows hst hallows
  obtain ⟨hst', hinput⟩ := Stack.stepped_of_step hs
  refine ⟨by rw [hregistration]; exact h.loop, fun c' st₁ hst₁ => ?_⟩
  rw [hstack] at hst₁
  rw [hregistration]
  by_cases hc : c' = c
  · obtain rfl : st' = st₁ := by simpa [hc] using hst₁
    refine ⟨by rw [hc]; exact hrunning, Stack.senderEnded_of_stepped hst' hsender, ?_⟩
    exact Stack.attached_of_stepped hst' hattached (hinput ▸ hrequests) (hinput ▸ hclient)
  · exact h.stack c' st₁ (by simpa [hc] using hst₁)

/-- **No end is ever dropped**: every event loop that was spawned still runs, every reliable sender
is still in its loop, and every channel between them and their clients is open. -/
theorem intact_of_run {tr : List (Event C B)}
    (hrun : (machine flexbuffers address).Run start tr s) : Intact s := by
  refine hrun.invariant (I := fun _ s => Intact s)
    ⟨fun c => Or.inl rfl, fun c st hst => by simp [start] at hst⟩ ?_
  intro tr s i s' e hrun hinv hs _
  have hregistration := run_registration hrun
  cases stepped_of_step hs with
  | @connected c noise e' _ hs' hstack =>
      have he' : e' = .connected c := (Registration.input_of_step hs').1.mpr rfl
      rcases Registration.loop_of_unfinished hregistration hinv.loop
        (Registration.stepped_of_step hs') (by simp [he']) with ⟨hne, -⟩ | ⟨c', hc', hloop⟩
      · exact absurd he' (hne c)
      · obtain rfl : c = c' := Registration.Event.connected.inj (he'.symm.trans hc')
        exact hinv.connected hloop hstack
  | @registered i e' _ hs' hconnect hfinish hstack =>
      -- the clean-up waits for a reliable sender that never ends
      have hwaits : ∀ c, e' ≠ .finished c := fun c he' => by
        have hdrained := hfinish c ((Registration.input_of_step hs').2.mp he')
        rw [hinv.not_drained c] at hdrained
        cases hdrained
      rcases Registration.loop_of_unfinished hregistration hinv.loop
        (Registration.stepped_of_step hs') hwaits with ⟨-, hloop⟩ | ⟨c, hc, -⟩
      · refine ⟨fun c => by rw [hloop]; exact hinv.loop c, ?_⟩
        rw [hloop, hstack]
        exact hinv.stack
      · exact absurd ((Registration.input_of_step hs').1.mp hc) (hconnect c)
  | inStack _ hst hallows hs' hreg hstack => exact hinv.inStack hst hallows hs' hreg hstack
  | around _ hreg hstack =>
      refine ⟨by rw [hreg]; exact hinv.loop, ?_⟩
      rw [hreg, hstack]
      exact hinv.stack

/-! ## Dead connections and the membership -/

/-- The connection actor of a connection still runs. -/
def Alive (s : Lifecycle C N) (c : C) : Prop := ∃ st, s.stack c = some st ∧ st.conn.phase.Live

/-- Every handle in the membership belongs to a connection whose connection actor still runs. -/
def MembersAlive (s : Lifecycle C N) : Prop :=
  ∀ a c, s.registration.members.lookup a = some c → s.Alive c

/-- Steps that need nothing new from a client or a peer. -/
def Input.internal : Input C N B → Bool
  | .connect _ _ => false
  | .postGet => false
  | .stack _ (.takeItem _) => false
  | .stack _ (.request _) => false
  | _ => true

/-- No task can take a step without new input. -/
def Quiescent (flexbuffers : Format B) (address : C → String) (s : Lifecycle C N) : Prop :=
  ∀ i : Input C N B, i.internal = true → (machine flexbuffers address).step s i = none

/-- Along every run the members are the connections that were registered last. -/
theorem lookup_members {tr : List (Event C B)}
    (hrun : (machine flexbuffers address).Run start tr s) (a : String) :
    s.registration.members.lookup a =
      MembershipActor.lastAdded a (Registration.processed (tr.filterMap Event.registration)) := by
  have hregistration := run_registration hrun
  obtain ⟨hposted, hmembers⟩ := Registration.posted_eq hregistration
  rw [hmembers]
  apply MembershipActor.lookup_after_of_added
  intro a' caller hmem
  apply Registration.remove_notMem_posted hregistration (intact_of_run hrun).loop a' caller
  rw [hposted]
  exact List.mem_append_left _ hmem

/-- **The members are alive exactly when every connection that was registered last under some address
is**: a connection actor that returns is no reason to leave. -/
theorem membersAlive_iff {tr : List (Event C B)}
    (hrun : (machine flexbuffers address).Run start tr s) :
    s.MembersAlive ↔
      ∀ a c, MembershipActor.lastAdded a (Registration.processed (tr.filterMap Event.registration)) =
        some c → s.Alive c := by
  unfold MembersAlive
  simp only [lookup_members hrun]

/-- A seed is connected and registered, and closes the connection. -/
def closedBySeed :
    List (Input Unit (NoiseHandler Snow.transparent) (Serde.Value × List (Bool × Nat))) :=
  [.connect () (.transporting false noSecret 0 0), .postAdd, .process, .stack () (.takeItem none)]

theorem quiescent_closedBySeed :
    ∃ tr s, (machine bareValues fun _ : Unit => "127.0.0.1:6680").exec start closedBySeed =
        some (s, tr) ∧
      Quiescent bareValues (fun _ => "127.0.0.1:6680") s ∧ ¬s.MembersAlive := by
  refine ⟨_, _, rfl, ?_, ?_⟩
  · intro i hinternal
    cases i with
    | connect c noise => cases hinternal
    | postAdd => rfl
    | postRemove c => rfl
    | postGet => cases hinternal
    | process => rfl
    | finish c => rfl
    | stack c i => cases i <;> first | rfl | cases hinternal
    | responded c => rfl
    | store id n => rfl
    | discard n => rfl
  · intro halive
    obtain ⟨st, hst, hlive⟩ := halive "127.0.0.1:6680" () rfl
    cases hst
    exact hlive

/-- Two names of one seed: the second connection replaces the first, which is closed. -/
def replacedSeed :
    List (Input Bool (NoiseHandler Snow.transparent) (Serde.Value × List (Bool × Nat))) :=
  [.connect false (.transporting false noSecret 0 0), .postAdd, .process,
    .connect true (.transporting false noSecret 0 0), .postAdd, .process,
    .stack false (.takeItem none)]

theorem membersAlive_iff_replacedSeed :
    ∃ tr s, (machine bareValues fun _ : Bool => "127.0.0.1:6680").exec start replacedSeed =
        some (s, tr) ∧
      (s.MembersAlive ↔ ∀ a c, MembershipActor.lastAdded a
        (Registration.processed (tr.filterMap Event.registration)) = some c → s.Alive c) := by
  have hexec : (machine bareValues fun _ : Bool => "127.0.0.1:6680").exec start replacedSeed =
    some (_, _) := rfl
  exact ⟨_, _, hexec, membersAlive_iff (Machine.run_of_exec hexec)⟩

end Lifecycle

end FrostFederation.Node
