/-
# FrostFederation.Federation.Awaiting — a federation whose actors await their reliable sends.

In `Federation.Network` an actor handles a Send in one step, with the answers of all its reliable sends.
Here every node is a `Node.Awaiting`.  A message is on its link when the actor goes into the reliable
send, and the copies of a suspended Send are delivered and forwarded while it is suspended.  A message
leaves its link when the client channel has room for it.  When a reliable send returns is left open: a
run may have any pattern of acknowledgements.

Messages go out earlier than in the coarser federation, so these runs are not runs of it.  But each node
follows `Node` (`Refines`), and the ledger `Flood` of the coarser nodes carries over.  `Shadow` adds the
one entry that the links need: the copies that the suspended Sends have written already.

In a state of rest nothing can be delivered and no task can take a step until a reliable send returns.
If no actor is suspended there, the coarser nodes are the nodes themselves, and the books are closed
(`quiesced_of_atRest`).
-/
import FrostFederation.Federation.Flood
import FrostFederation.Node.Awaiting

namespace FrostFederation

open FrostFederation.Lib
open FrostFederation.Protocol
open FrostFederation.EchoBroadcast (EchoBroadcastMessage)

/-! ## The coarser node beside one node -/

namespace Node.Awaiting

variable {E : Type} {r r' : Awaiting E} {c c' : Node E} {sent : List (EchoBroadcast.Effect E)}
  {e : Event E} {more : List (Node.Event E)} {own : E → Prop} {addr : E → String} {P : Message → Prop}

/-- When the actor is not suspended, the coarser node is the node itself. -/
theorem eq_of_behind (h : Behind r sent c) (hidle : r.sending = none) :
    c = r.node ∧ written r sent = [] := by
  obtain ⟨hlags, hnode⟩ := h
  cases hactor : r.node.actor with
  | none =>
      have hphase : r.phase = .ended := by simp only [phase, hactor]
      rw [hphase] at hlags
      refine ⟨?_, by rw [written, hphase, hlags.2]; rfl⟩
      rw [hnode, hlags.1, ← hactor]
      simp only [loop, EchoBroadcast.Loop.unfinished, hphase]
  | some actor =>
      have hphase : r.phase = .receiving actor := by simp only [phase, hactor, hidle]
      rw [hphase] at hlags
      refine ⟨?_, by rw [written, hphase, hlags.2]; rfl⟩
      rw [hnode, hlags.1, ← hactor]
      simp only [loop, EchoBroadcast.Loop.unfinished, hphase]

/-- What a suspended Send has written is its message. -/
theorem written_of_behind (h : Behind r sent c) {f : E × Message} (hf : f ∈ written r sent) :
    ∃ members tx, .send f.2 members tx ∈ c.queue := by
  obtain ⟨hlags, hnode⟩ := h
  cases hphase : r.phase with
  | receiving actor =>
      rw [hphase] at hlags
      rw [written, hphase, hlags.2] at hf
      cases hf
  | ended =>
      rw [hphase] at hlags
      rw [written, hphase, hlags.2] at hf
      cases hf
  | sending actor call =>
      rw [hphase] at hlags
      obtain ⟨first, done, -, -, -, -, rfl⟩ := hlags
      have hdata : f.2 = call.data := by
        rw [written, hphase] at hf
        rcases List.mem_append.mp hf with hsent | hasking
        · simp only [sentFrames, EchoBroadcast.Loop.reached, List.mem_filterMap, List.mem_map] at hsent
          obtain ⟨effect, ⟨entry, -, rfl⟩, heq⟩ := hsent
          rw [← Option.some.inj heq]
        · rw [List.mem_singleton.mp hasking]
      refine ⟨call.members, call.respondTo, ?_⟩
      rw [hnode, hdata]
      simp only [loop, EchoBroadcast.Loop.unfinished, hphase]
      exact List.mem_cons_self

variable [DecidableEq E] {calculateHash : String → MessageId}

theorem input_of_step {i : Input E} (hs : (machine calculateHash E).step r i = some (r', e)) :
    e.input = i := by
  cases moved_of_step hs with
  | task _ _ _ => rfl
  | turn _ _ => exact input_resume _ _ _ _

/-- A broadcast arrives over connection `x`. -/
def Event.brings (x : E) (e : Event E) : Bool :=
  match e.input with
  | .task (.arrive x' (.broadcastMessage _)) => x' = x
  | _ => false

theorem brings_of_turn {x : E} (hinput : ∀ input, e.input ≠ .task input) : e.brings x = false := by
  unfold Event.brings
  split
  · next heq => exact absurd heq (hinput _)
  · rfl

/-- A step of the finer node brings and forwards what the coarser one does. -/
theorem pending_of_follows (hid : ∀ data, P data → data.getMessageId ≠ none) (h : Up own addr P c)
    {x : E} (hx : own x) (hfollows : Follows calculateHash c e more c')
    (hcalm : ∀ ev ∈ more, Calmly own P calculateHash c ev) :
    (e.brings x).toNat + c.pending x = c'.pending x + more.countP (Node.Event.forwards x) := by
  cases hfollows with
  | suspended hinput _ _ => simp [brings_of_turn hinput]
  | @task input ev _ hs hinput _ he =>
      have hpending := pending_step hid h hx hs (hcalm ev (List.mem_singleton_self ev))
      have hbrings : e.brings x = ev.brings x := by
        subst he hinput
        unfold Event.brings Node.Event.brings
        split <;> simp_all
      rw [hbrings, hpending]
      cases hforwards : ev.forwards x <;> simp [hforwards]
  | @handled reach event ev _ hs hinput _ _ hev _ =>
      have hpending := pending_step hid h hx hs (hcalm ev (List.mem_singleton_self ev))
      subst hev
      simpa [brings_of_turn hinput, Node.Event.brings, Node.Event.forwards] using hpending

/-- What the tasks of a node can do by themselves.  Whether a reliable send returns is not up to them. -/
def Internal (own : E → Prop) : Input E → Prop
  | .task input => Node.Internal own input
  | .take => True
  | .answer _ => False

/-- A node whose actor is not suspended and whose tasks cannot take a step has nothing to do but wait. -/
theorem node_atRest (halive : r.node.actor.isSome = true) (hidle : r.sending = none)
    (h : ∀ input, Internal own input → (machine calculateHash E).step r input = none) :
    r.node.AtRest own := by
  obtain ⟨actor, hactor⟩ := Option.isSome_iff_exists.mp halive
  have hqueue : r.node.queue = [] := by
    have htake := h .take trivial
    cases hq : r.node.queue with
    | nil => rfl
    | cons command rest =>
        simp [machine, step, EchoBroadcast.Loop.step, loop, phase, hactor, hidle, hq] at htake
  have hsteps : ∀ input, Node.Internal own input →
      (Node.machine calculateHash E).step r.node input = none := by
    intro input hinput
    by_cases hreach : ∃ reach, input = .actor reach
    · obtain ⟨reach, rfl⟩ := hreach
      simp [Node.machine, Node.step, hqueue]
    · have hadmits : r.admits input = true := by
        cases input with
        | actor reach => exact absurd ⟨reach, rfl⟩ hreach
        | post j nanos => simp [admits, hqueue, EchoBroadcast.commandCapacity]
        | _ => rfl
      have hnone := h (.task input) hinput
      show Node.step calculateHash r.node input = none
      simpa [machine, step, hadmits] using hnone
  exact atRest_of_step halive hsteps

/-- Conversely, at rest no task can take a step. -/
theorem step_eq_none_of_atRest (h : r.node.AtRest own) {input : Input E} (hinput : Internal own input) :
    (machine calculateHash E).step r input = none := by
  cases input with
  | task input =>
      have hnone : Node.step calculateHash r.node input = none := Node.step_eq_none_of_atRest h hinput
      simp [machine, step, hnone]
  | take => simp [machine, step, EchoBroadcast.Loop.step, loop, h.queue]
  | answer ok => cases hinput

end Node.Awaiting

/-! ## Steps -/

namespace Federation

/-- The nodes, and what is under way to each endpoint. -/
structure Awaiting (N E : Type) where
  node : N → Node.Awaiting E
  link : E → List Message

namespace Awaiting

variable {N E : Type}

inductive Input (N E : Type) where
  | node (n : N) (input : Node.Awaiting.Input E)
  | deliver (e : E)

/-- A step of the federation is a step of one node, and shows what the node shows. -/
structure Event (N E : Type) where
  node : N
  shown : Node.Awaiting.Event E

section Step

variable [DecidableEq N] [DecidableEq E] (F : Federation N E) (calculateHash : String → MessageId)

/-- The tasks of a node use its own endpoints.  A reliable send may return at any time. -/
def permits (n : N) : Node.Awaiting.Input E → Bool
  | .task input => F.permits n input
  | .take => true
  | .answer _ => true

/-- Node `n` has gone on to `node` and has written `frames`. -/
def advance (s : Awaiting N E) (n : N) (node : Node.Awaiting E) (frames : List (E × Message)) :
    Awaiting N E where
  node := Function.update s.node n node
  link := fun e => s.link e ++ F.bound frames e

/-- A message goes from its link into the client channel when there is room. -/
def step (s : Awaiting N E) : Input N E → Option (Awaiting N E × Event N E)
  | .node n input =>
      if permits F n input then
        (Node.Awaiting.step calculateHash (s.node n) input).map fun r =>
          (advance F s n r.1 r.2.frames, ⟨n, r.2⟩)
      else none
  | .deliver e =>
      match s.link e with
      | [] => none
      | message :: rest =>
          (Node.Awaiting.step calculateHash (s.node (F.owner e)) (.task (.arrive e message))).map fun r =>
            (advance F { s with link := Function.update s.link e rest } (F.owner e) r.1 r.2.frames,
              ⟨F.owner e, r.2⟩)

def machine : Machine (Awaiting N E) (Input N E) (Event N E) := ⟨step F calculateHash⟩

/-- Every connection is up and registered at both ends, and no actor has anything to do. -/
def connected : Awaiting N E := ⟨fun n => ⟨F.connected.node n, none⟩, F.connected.link⟩

end Step

/-! ## What a run shows -/

/-- No reliable send fails, no connection closes, and no unicast message is sent. -/
def Calm : Node.Awaiting.Input E → Prop
  | .task (.request _ _ _) => False
  | .task input => Federation.Calm input
  | .take => True
  | .answer ok => ok = true

theorem calm_of_task {input : Node.Input E} (h : Calm (.task input)) : Federation.Calm input := by
  cases input with
  | request e message nanos => cases h
  | _ => exact h

def Undisturbed (ev : Event N E) : Prop := Calm ev.shown.input

def Event.origination? (ev : Event N E) : Option (N × String × Nat) :=
  match ev.shown.input with
  | .task (.originate message nanos) => some (ev.node, message, nanos)
  | _ => none

/-- The broadcasts that are originated in a run, and by whom. -/
def originations (tr : List (Event N E)) : List (N × String × Nat) := tr.filterMap Event.origination?

variable [DecidableEq N]

/-- What node `n` shows in a run. -/
def shownBy (n : N) (tr : List (Event N E)) : List (Node.Awaiting.Event E) :=
  tr.filterMap fun ev => if ev.node = n then some ev.shown else none

/-- What node `n` shows in a run of the coarser nodes. -/
def followedBy (n : N) (tr : List (Federation.Event N E)) : List (Node.Event E) :=
  tr.filterMap fun
    | .node n' ev => if n' = n then some ev else none
    | .lost _ => none

/-! ## What one step can do -/

variable [DecidableEq E] {F : Federation N E} {calculateHash : String → MessageId} {P : Message → Prop}

/-- A step of the federation is a step of one node: what it takes from a link it brings to the node, and
what the node writes is on the links. -/
structure Moved (F : Federation N E) (calculateHash : String → MessageId) (s : Awaiting N E)
    (ev : Event N E) (s' : Awaiting N E) : Prop where
  step : ∃ input, (Node.Awaiting.machine calculateHash E).step (s.node ev.node) input =
    some (s'.node ev.node, ev.shown)
  others : ∀ n, n ≠ ev.node → s'.node n = s.node n
  register : ∀ e, ev.shown.input = .task (.register e) → F.owner e = ev.node
  arrive : ∀ e b, ev.shown.input = .task (.arrive e (.broadcastMessage b)) →
    .broadcastMessage b ∈ s.link e
  links : ∀ e b, .broadcastMessage b ∈ s'.link e →
    .broadcastMessage b ∈ s.link e ∨ ∃ e', (e', .broadcastMessage b) ∈ ev.shown.frames
  count : ∀ e, Node.broadcasts (s.link e) + Node.broadcasts (F.bound ev.shown.frames e) ≤
    Node.broadcasts (s'.link e) + if F.owner e = ev.node then (ev.shown.brings e).toNat else 0

/-- A node goes on, and its links are what is left of them (`link₀`) with what it has written. -/
theorem moved_advance {s : Awaiting N E} {link₀ : E → List Message} {n : N} {node : Node.Awaiting E}
    {shown : Node.Awaiting.Event E} {input : Node.Awaiting.Input E}
    (hs : (Node.Awaiting.machine calculateHash E).step (s.node n) input = some (node, shown))
    (hregister : ∀ e, input = .task (.register e) → F.owner e = n)
    (harrive : ∀ e b, input = .task (.arrive e (.broadcastMessage b)) → .broadcastMessage b ∈ s.link e)
    (hleft : ∀ e b, .broadcastMessage b ∈ link₀ e → .broadcastMessage b ∈ s.link e)
    (hcount : ∀ e, Node.broadcasts (s.link e) ≤
      Node.broadcasts (link₀ e) + if F.owner e = n then (shown.brings e).toNat else 0) :
    Moved F calculateHash s ⟨n, shown⟩ (advance F { s with link := link₀ } n node shown.frames) := by
  have hself : (advance F { s with link := link₀ } n node shown.frames).node n = node :=
    Function.update_self _ _ _
  have hinput : shown.input = input := Node.Awaiting.input_of_step hs
  exact
    { step := ⟨input, by rw [hself]; exact hs⟩
      others := fun n' hn' => Function.update_of_ne hn' _ _
      register := fun e heq => hregister e (hinput.symm.trans heq)
      arrive := fun e b heq => harrive e b (hinput.symm.trans heq)
      links := by
        intro e b hb
        rcases List.mem_append.mp hb with hold | hnew
        · exact Or.inl (hleft e b hold)
        · exact Or.inr (mem_frames_of_bound hnew)
      count := by
        intro e
        have hlink := hcount e
        show Node.broadcasts (s.link e) + Node.broadcasts (F.bound shown.frames e) ≤
          Node.broadcasts (link₀ e ++ F.bound shown.frames e) +
            if F.owner e = n then (shown.brings e).toNat else 0
        rw [broadcasts_append]
        omega }

theorem moved_of_step {s s' : Awaiting N E} {input : Input N E} {ev : Event N E}
    (hs : (machine F calculateHash).step s input = some (s', ev)) : Moved F calculateHash s ev s' := by
  cases input with
  | node n input =>
      simp only [machine, step] at hs
      split at hs
      · next hpermits =>
          obtain ⟨⟨node, shown⟩, hstep, heq⟩ := Option.map_eq_some_iff.mp hs
          obtain ⟨rfl, rfl⟩ := Prod.mk.inj heq
          refine moved_advance hstep ?_ ?_ (fun _ _ hb => hb) (fun _ => Nat.le_add_right _ _)
          · rintro e rfl
            simpa [permits, Federation.permits] using hpermits
          · -- nothing arrives at a node but from a link
            rintro e b rfl
            simp [permits, Federation.permits] at hpermits
      · cases hs
  | deliver e₀ =>
      simp only [machine, step] at hs
      split at hs
      · cases hs
      · next message rest hlink =>
          obtain ⟨⟨node, shown⟩, hstep, heq⟩ := Option.map_eq_some_iff.mp hs
          obtain ⟨rfl, rfl⟩ := Prod.mk.inj heq
          have hnode : (Node.Awaiting.machine calculateHash E).step (s.node (F.owner e₀))
              (.task (.arrive e₀ message)) = some (node, shown) := hstep
          have hinput : shown.input = .task (.arrive e₀ message) := Node.Awaiting.input_of_step hnode
          refine moved_advance hnode ?_ ?_ (fun _ _ hb => Node.mem_of_mem_update hlink hb) ?_
          · intro e heq
            cases heq
          · intro e b heq
            cases heq
            rw [hlink]
            exact List.mem_cons_self
          · intro e
            by_cases heq : e = e₀
            · subst heq
              rw [Function.update_self, hlink, if_pos rfl, Node.Awaiting.Event.brings, hinput]
              cases message with
              | unicastMessage u => simp [Node.broadcasts]
              | broadcastMessage b => simp [Node.broadcasts]
            · rw [Function.update_of_ne heq]
              exact Nat.le_add_right _ _

/-! ## The ledger -/

/-- The ledger of a run: the coarser nodes `c` beside the nodes, a run `tr'` of them, and what the
suspended Sends have done so far. -/
structure Shadow (F : Federation N E) (P : Message → Prop) (ids : List MessageId)
    (tr : List (Event N E)) (s : Awaiting N E) (tr' : List (Federation.Event N E)) (c : N → Node E)
    (sent : N → List (EchoBroadcast.Effect E)) : Prop where
  flood : F.Flood P ids tr' ⟨c, s.link⟩
  refines : ∀ n, Node.Awaiting.Refines (shownBy n tr) (s.node n) (sent n) (followedBy n tr') (c n)
  originations : Federation.originations tr' = originations tr
  /-- Of every Send that the other end has handled, a copy is on its way or has been forwarded, and the
  copies of its suspended Send are there already. -/
  copies : ∀ e, handled (F.owner (F.peer e)) tr' + Node.broadcasts (F.bound
      (Node.Awaiting.written (s.node (F.owner (F.peer e))) (sent (F.owner (F.peer e)))) e) ≤
    Node.broadcasts (s.link e) + (c (F.owner e)).pending e + F.forwarded e tr'

section Step

variable {ids : List MessageId} {tr : List (Event N E)} {s s' : Awaiting N E} {ev : Event N E}
  {tr' : List (Federation.Event N E)} {c : N → Node E} {sent : N → List (EchoBroadcast.Effect E)}
  {more : List (Node.Event E)} {c' : Node E} {sent' : List (EchoBroadcast.Effect E)}
  (hid : ∀ data, P data → data.getMessageId ≠ none)
  (hids : ∀ data m, P data → data.getMessageId = some m → m ∈ ids) (hsome : ∀ n, ∃ e, F.owner e = n)
  (haddress : ∀ e e', F.owner e = F.owner e' → F.address e = F.address e' → e = e')
  (h : Shadow F P ids tr s tr' c sent) (hmoved : Moved F calculateHash s ev s') (hcalm : Undisturbed ev)
  (horiginate : ∀ r, ev.origination? = some r → P (F.package calculateHash r.1 r.2.1 r.2.2))
  (hfollows : Node.Awaiting.Follows calculateHash (c ev.node) ev.shown more c')

include h hmoved hcalm horiginate hfollows in
/-- The coarser node follows with a calm step, if it takes one. -/
theorem calmly_of_follows : ∀ nodeEv ∈ more,
    Node.Calmly (fun e => F.owner e = ev.node) P calculateHash (c ev.node) nodeEv := by
  have hpackage : ∀ message nanos, ev.shown.input = .task (.originate message nanos) →
      P (Node.newPackage calculateHash (c ev.node) message nanos) := by
    intro message nanos hinput
    have hP := horiginate (ev.node, message, nanos) (by simp [Event.origination?, hinput])
    rwa [Node.newPackage, h.flood.bindAddress ev.node, h.flood.messageIdGenerator ev.node]
  intro nodeEv hmem
  cases hfollows with
  | suspended _ _ _ => cases hmem
  | @task input _ _ hs hinput _ he =>
      obtain rfl := List.mem_singleton.mp hmem
      have hshown : ev.shown.input = .task nodeEv.input := by rw [he, hinput]
      refine calmly_of_calm (s := ⟨c, s.link⟩) ?_ ?_ ?_ ?_
      · rw [Undisturbed, hshown] at hcalm
        exact calm_of_task hcalm
      · exact fun e heq => hmoved.register e (by rw [hshown, heq])
      · exact fun e b heq => h.flood.links e b (hmoved.arrive e b (by rw [hshown, heq]))
      · exact fun message nanos heq => hpackage message nanos (by rw [hshown, heq])
  | @handled reach event _ _ hs hinput _ hreach hev _ =>
      obtain rfl := List.mem_singleton.mp hmem
      have hsucceeds : ev.shown.input ≠ .answer false := by
        intro heq
        rw [Undisturbed, heq] at hcalm
        cases hcalm
      obtain rfl := hreach hsucceeds
      subst hev
      exact calmly_of_calm (s := ⟨c, s.link⟩) (fun _ => rfl) (by simp) (by simp) (by simp)

include h hmoved hcalm horiginate hfollows in
/-- The coarser nodes take no step, or one of them takes one. -/
theorem advanced_of_follows : (more = [] ∧ c' = c ev.node) ∨
    ∃ nodeEv, more = [nodeEv] ∧ F.Advanced calculateHash P ⟨c, s.link⟩ ev.node nodeEv
      ⟨Function.update c ev.node c', s'.link⟩ := by
  have hcalmly := calmly_of_follows h hmoved hcalm horiginate hfollows
  have hadvanced : ∀ {input nodeEv}, more = [nodeEv] →
      (Node.machine calculateHash E).step (c ev.node) input = some (c', nodeEv) →
      F.Advanced calculateHash P ⟨c, s.link⟩ ev.node nodeEv ⟨Function.update c ev.node c', s'.link⟩ := by
    intro input nodeEv hmore hs
    refine ⟨⟨input, ?_⟩, fun n hn => Function.update_of_ne hn _ _, hcalmly nodeEv (by simp [hmore])⟩
    show (Node.machine calculateHash E).step (c ev.node) input =
      some (Function.update c ev.node c' ev.node, nodeEv)
    rw [Function.update_self]
    exact hs
  cases hfollows with
  | suspended _ _ _ => exact Or.inl ⟨rfl, rfl⟩
  | task hs _ _ _ => exact Or.inr ⟨_, rfl, hadvanced rfl hs⟩
  | handled hs _ _ _ _ _ => exact Or.inr ⟨_, rfl, hadvanced rfl hs⟩

variable (hbehind : Node.Awaiting.Behind (s'.node ev.node) sent' c')
  (hwritten : (Node.Awaiting.written (s.node ev.node) (sent ev.node) ++ ev.shown.frames).Perm
    (more.flatMap Node.Event.frames ++ Node.Awaiting.written (s'.node ev.node) sent'))

include hid hsome haddress h hmoved hcalm horiginate hfollows hbehind hwritten in
/-- The broadcasts on the links have `P`, also those of a suspended Send. -/
theorem links_of_follows {e : E} {b : Broadcast} (hb : .broadcastMessage b ∈ s'.link e) :
    P (.broadcastMessage b) := by
  rcases hmoved.links e b hb with hold | ⟨e', hnew⟩
  · exact h.flood.links e b hold
  · have hup : c'.Up (fun e => F.owner e = ev.node) F.address P := by
      rcases advanced_of_follows h hmoved hcalm horiginate hfollows with ⟨-, rfl⟩ | ⟨nodeEv, -, hadvanced⟩
      · exact h.flood.up ev.node
      · obtain ⟨input, hs⟩ := hadvanced.step
        have hnext := Node.up_step hid (fun e e' he he' => haddress e e' (he.trans he'.symm))
          (hsome ev.node) (h.flood.up ev.node) hs hadvanced.calmly
        simpa using hnext
    rcases List.mem_append.mp (hwritten.subset (List.mem_append_right _ hnew)) with hframes | hsuspended
    · rcases advanced_of_follows h hmoved hcalm horiginate hfollows with
        ⟨rfl, -⟩ | ⟨nodeEv, rfl, hadvanced⟩
      · cases hframes
      · rw [List.flatMap_singleton] at hframes
        exact broadcast_of_frames hid h.flood hadvanced hframes
    · obtain ⟨members, tx, hqueue⟩ := Node.Awaiting.written_of_behind hbehind hsuspended
      obtain ⟨data, members', tx', heq, hdata, -⟩ := hup.carries.queue _ hqueue
      cases heq
      exact hdata

include hid hids hsome haddress h hmoved hcalm horiginate hfollows hbehind hwritten in
theorem flood_of_follows : F.Flood P ids (tr' ++ more.map (.node ev.node))
    ⟨Function.update c ev.node c', s'.link⟩ := by
  have hlinks := fun e b => links_of_follows (e := e) (b := b) hid hsome haddress h hmoved hcalm horiginate
    hfollows hbehind hwritten
  rcases advanced_of_follows h hmoved hcalm horiginate hfollows with
    ⟨rfl, rfl⟩ | ⟨nodeEv, rfl, hadvanced⟩
  · rw [Function.update_eq_self, List.map_nil, List.append_nil]
    exact { h.flood with links := hlinks }
  · exact flood_step hid hids hsome h.flood hadvanced haddress hlinks

omit [DecidableEq E] in
theorem handled_append (n n' : N) (tr : List (Federation.Event N E)) (more : List (Node.Event E)) :
    handled n (tr ++ more.map (.node n')) =
      handled n tr + if n' = n then more.countP (·.processed.isSome) else 0 := by
  rw [handled, handled, List.countP_append, List.countP_map]
  split
  · next hn => simp [Function.comp_def, Event.handlesAt, hn]
  · next hn => simp [Function.comp_def, Event.handlesAt, hn]

theorem forwarded_append (e : E) (n' : N) (tr : List (Federation.Event N E))
    (more : List (Node.Event E)) :
    F.forwarded e (tr ++ more.map (.node n')) =
      F.forwarded e tr + if n' = F.owner e then more.countP (Node.Event.forwards e) else 0 := by
  rw [forwarded, forwarded, List.countP_append, List.countP_map]
  split
  · next hn => simp [Function.comp_def, Event.forwardsOver, hn]
  · next hn => simp [Function.comp_def, Event.forwardsOver, hn]

omit [DecidableEq N] in
theorem bound_append (frames frames' : List (E × Message)) (e : E) :
    F.bound (frames ++ frames') e = F.bound frames e ++ F.bound frames' e :=
  List.filterMap_append

include hid hsome h hmoved hcalm horiginate hfollows in
/-- A Send that is handled has put a copy on every link. -/
theorem processed_le {e : E} (howner : F.owner (F.peer e) = ev.node) :
    more.countP (·.processed.isSome) ≤ Node.broadcasts (F.bound (more.flatMap Node.Event.frames) e) := by
  rcases advanced_of_follows h hmoved hcalm horiginate hfollows with
    ⟨rfl, -⟩ | ⟨nodeEv, rfl, hadvanced⟩
  · exact Nat.zero_le _
  · cases hprocessed : nodeEv.processed with
    | none => simp [hprocessed]
    | some event =>
        obtain ⟨input, hs⟩ := hadvanced.step
        obtain ⟨data, members, tx, result, -, -, hdata, hframes⟩ := Node.sent_of_processed hid
          (hsome ev.node) (h.flood.up ev.node) hs hadvanced.calmly hprocessed
        obtain ⟨m, hm⟩ := Option.ne_none_iff_exists'.mp (hid data hdata)
        obtain ⟨b, rfl⟩ := Message.eq_roundOnePackage_of_getMessageId hm
        have hbound : .broadcastMessage (.roundOnePackage b (some m)) ∈ F.bound nodeEv.frames e :=
          List.mem_filterMap.mpr ⟨_, hframes (F.peer e) howner, by simp [F.peer_peer]⟩
        have hone : 0 < Node.broadcasts (F.bound nodeEv.frames e) :=
          List.countP_pos_iff.mpr ⟨_, hbound, rfl⟩
        rw [List.flatMap_singleton, List.countP_singleton, hprocessed]
        exact hone

include hid hsome h hmoved hcalm horiginate hfollows hwritten in
/-- **No copy is dropped.**  A Send puts a copy on every link before it is handled, and a copy goes from
the link through the client channel to the event loop, which hands it over. -/
theorem copies_of_follows (e : E) :
    handled (F.owner (F.peer e)) (tr' ++ more.map (.node ev.node)) +
        Node.broadcasts (F.bound (Node.Awaiting.written (s'.node (F.owner (F.peer e)))
          (Function.update sent ev.node sent' (F.owner (F.peer e)))) e) ≤
      Node.broadcasts (s'.link e) + (Function.update c ev.node c' (F.owner e)).pending e +
        F.forwarded e (tr' ++ more.map (.node ev.node)) := by
  have hcopies := h.copies e
  have hcount := hmoved.count e
  rw [handled_append, forwarded_append]
  by_cases howner : F.owner e = ev.node
  · -- the node at this end
    have hne : F.owner (F.peer e) ≠ ev.node := howner ▸ F.owner_peer e
    have hpending := Node.Awaiting.pending_of_follows hid (h.flood.up ev.node) howner hfollows
      (calmly_of_follows h hmoved hcalm horiginate hfollows)
    rw [if_neg (Ne.symm hne), if_pos howner.symm, hmoved.others _ hne, Function.update_of_ne hne, howner,
      Function.update_self]
    rw [if_pos howner] at hcount
    rw [howner] at hcopies
    show _ ≤ Node.broadcasts (s'.link e) + c'.pending e + _
    have hpending' : (ev.shown.brings e).toNat + (c ev.node).pending e =
      c'.pending e + more.countP (Node.Event.forwards e) := hpending
    omega
  · rw [if_neg (Ne.symm howner), Function.update_of_ne howner]
    rw [if_neg howner] at hcount
    by_cases hpeer : F.owner (F.peer e) = ev.node
    · -- the node at the other end
      have hbound : Node.broadcasts (F.bound (Node.Awaiting.written (s.node ev.node) (sent ev.node)) e) +
          Node.broadcasts (F.bound ev.shown.frames e) =
          Node.broadcasts (F.bound (more.flatMap Node.Event.frames) e) +
            Node.broadcasts (F.bound (Node.Awaiting.written (s'.node ev.node) sent') e) := by
        rw [← broadcasts_append, ← broadcasts_append, ← bound_append, ← bound_append]
        exact (hwritten.filterMap _).countP_eq _
      have hprocessed := processed_le hid hsome h hmoved hcalm horiginate hfollows hpeer
      rw [if_pos hpeer.symm, hpeer, Function.update_self]
      rw [hpeer] at hcopies
      omega
    · rw [if_neg (Ne.symm hpeer), hmoved.others _ hpeer, Function.update_of_ne hpeer]
      omega

omit [DecidableEq N] in
include hfollows in
theorem originations_of_follows (hsame : Federation.originations tr' = originations tr) :
    Federation.originations (tr' ++ more.map (.node ev.node)) = originations (tr ++ [ev]) := by
  rw [Federation.originations, originations, List.filterMap_append, List.filterMap_append]
  refine congrArg₂ _ hsame ?_
  have hturn : (∀ input, ev.shown.input ≠ .task input) → ev.origination? = none := by
    intro hinput
    unfold Event.origination?
    split
    · next heq => exact absurd heq (hinput _)
    · rfl
  cases hfollows with
  | suspended hinput _ _ => simp [hturn hinput]
  | @task input nodeEv _ _ hinput _ he =>
      have horigination : Federation.Event.origination? (.node ev.node nodeEv) = ev.origination? := by
        rw [Federation.Event.origination?, Event.origination?, he, hinput]
        cases input <;> rfl
      simp only [List.map_cons, List.map_nil, List.filterMap_cons, List.filterMap_nil, horigination]
  | handled _ hinput _ _ hev _ => simp [hturn hinput, hev, Federation.Event.origination?]

omit [DecidableEq E] in
theorem shownBy_snoc (n : N) (tr : List (Event N E)) (ev : Event N E) :
    shownBy n (tr ++ [ev]) = shownBy n tr ++ if ev.node = n then [ev.shown] else [] := by
  rw [shownBy, List.filterMap_append]
  split
  · next hn => simp [hn, shownBy]
  · next hn => simp [hn, shownBy]

omit [DecidableEq E] in
theorem followedBy_append (n n' : N) (tr : List (Federation.Event N E)) (more : List (Node.Event E)) :
    followedBy n (tr ++ more.map (.node n')) = followedBy n tr ++ if n' = n then more else [] := by
  rw [followedBy, List.filterMap_append, List.filterMap_map]
  split
  · next hn => simp [hn, followedBy]
  · next hn => simp [hn, followedBy]

include hid hids hsome haddress h hmoved hcalm horiginate in
/-- **A step keeps the ledger.** -/
theorem shadow_step : ∃ tr'' c' sent', Shadow F P ids (tr ++ [ev]) s' tr'' c' sent' := by
  obtain ⟨input, hs⟩ := hmoved.step
  obtain ⟨more, c', sent', hfollows, hbehind, hwritten⟩ :=
    Node.Awaiting.follows_of_step (h.refines ev.node).behind hs
  refine ⟨tr' ++ more.map (.node ev.node), Function.update c ev.node c', Function.update sent ev.node sent',
    flood_of_follows hid hids hsome haddress h hmoved hcalm horiginate hfollows hbehind hwritten, ?_,
    originations_of_follows hfollows h.originations,
    copies_of_follows hid hsome h hmoved hcalm horiginate hfollows hwritten⟩
  intro n
  rw [shownBy_snoc, followedBy_append]
  by_cases hn : ev.node = n
  · subst hn
    rw [if_pos rfl, if_pos rfl, Function.update_self, Function.update_self]
    exact Node.Awaiting.refines_of_follows (h.refines ev.node) hfollows hbehind hwritten
  · rw [if_neg hn, if_neg hn, List.append_nil, List.append_nil, hmoved.others n (Ne.symm hn),
      Function.update_of_ne (Ne.symm hn), Function.update_of_ne (Ne.symm hn)]
    exact h.refines n

end Step

theorem shadow_connected (ids : List MessageId)
    (haddress : ∀ e e', F.owner e = F.owner e' → F.address e = F.address e' → e = e') :
    Shadow F P ids [] (connected F) [] F.connected.node fun _ => [] := by
  have hnothing : ∀ n, Node.Awaiting.written ((connected F).node n) [] = [] :=
    fun n => (Node.Awaiting.eq_of_behind (Node.Awaiting.behind_idle (F.connected.node n)) rfl).2
  refine ⟨flood_connected ids haddress, fun n => ?_, rfl, fun e => ?_⟩
  · refine ⟨Node.Awaiting.behind_idle _, ?_, rfl, rfl, rfl⟩
    rw [hnothing]
    exact List.Perm.nil
  · rw [hnothing]
    exact Nat.zero_le _

/-- **What a run from the connected state has left under way.** -/
theorem shadow_of_run {ids : List MessageId} {tr : List (Event N E)} {s : Awaiting N E}
    (haddress : ∀ e e', F.owner e = F.owner e' → F.address e = F.address e' → e = e')
    (hsome : ∀ n, ∃ e, F.owner e = n) (hid : ∀ data, P data → data.getMessageId ≠ none)
    (hids : ∀ data m, P data → data.getMessageId = some m → m ∈ ids)
    (hrun : (machine F calculateHash).RunWith (fun _ ev => Undisturbed ev) (connected F) tr s)
    (horiginate : ∀ r ∈ originations tr, P (F.package calculateHash r.1 r.2.1 r.2.2)) :
    ∃ tr' c sent, Shadow F P ids tr s tr' c sent := by
  have hguard : ∀ ev ∈ tr, ∀ r, ev.origination? = some r →
      P (F.package calculateHash r.1 r.2.1 r.2.2) :=
    fun ev hev r hr => horiginate r (List.mem_filterMap.mpr ⟨ev, hev, hr⟩)
  refine (hrun.strengthen hguard).invariant (I := fun tr s => ∃ tr' c sent, Shadow F P ids tr s tr' c sent)
    ⟨_, _, _, shadow_connected ids haddress⟩ ?_
  rintro tr s input s' ev - ⟨tr', c, sent, h⟩ hs ⟨hquiet, hP⟩
  exact shadow_step hid hids hsome haddress h (moved_of_step hs) hquiet hP

/-! ## A federation at rest -/

/-- Nothing can be delivered and no task of any node can take a step, unless a reliable send returns. -/
def AtRest (F : Federation N E) (calculateHash : String → MessageId) (s : Awaiting N E) : Prop :=
  (∀ e, (machine F calculateHash).step s (.deliver e) = none) ∧
    ∀ n input, Node.Awaiting.Internal (fun e => F.owner e = n) input →
      (machine F calculateHash).step s (.node n input) = none

/-- **At rest, and with no actor suspended, nothing is left to do.** -/
theorem quiesced_of_atRest {ids : List MessageId} {tr : List (Event N E)} {s : Awaiting N E}
    {tr' : List (Federation.Event N E)} {c : N → Node E} {sent : N → List (EchoBroadcast.Effect E)}
    (h : Shadow F P ids tr s tr' c sent) (hrest : AtRest F calculateHash s)
    (hidle : ∀ n, (s.node n).sending = none) :
    F.Quiesced P ids tr' ⟨fun n => (s.node n).node, s.link⟩ := by
  have hsame := fun n => Node.Awaiting.eq_of_behind (h.refines n).behind (hidle n)
  obtain rfl : c = fun n => (s.node n).node := funext fun n => (hsame n).1
  have hnodes : ∀ n, (s.node n).node.AtRest fun e => F.owner e = n := by
    intro n
    have hsteps : ∀ input, Node.Awaiting.Internal (fun e => F.owner e = n) input →
        (Node.Awaiting.machine calculateHash E).step (s.node n) input = none := by
      intro input hinput
      have hpermits : permits F n input = true := by
        cases input with
        | task input =>
            cases input <;>
              simp_all [Node.Awaiting.Internal, Node.Internal, permits, Federation.permits]
        | _ => rfl
      have hnone := hrest.2 n input hinput
      show Node.Awaiting.step calculateHash (s.node n) input = none
      simpa [machine, step, hpermits] using hnone
    exact Node.Awaiting.node_atRest (h.flood.up n).sound.alive (hidle n) hsteps
  refine ⟨h.flood, fun e => ?_, hnodes, fun e hinbox => ?_⟩
  · have hcopies := h.copies e
    rw [(hsame _).2] at hcopies
    exact hcopies
  · cases hl : s.link e with
    | nil => exact hl
    | cons message rest =>
        have hnone := hrest.1 e
        have haddress : (s.node (F.owner e)).node.address e = some (F.address e) :=
          (h.flood.up (F.owner e)).address e rfl
        have hclosed : (s.node (F.owner e)).node.closed e = false := (h.flood.up (F.owner e)).closed e
        have hempty : (s.node (F.owner e)).node.inbox e = [] := hinbox
        simp [machine, step, hl, Node.Awaiting.step, Node.Awaiting.admits, Node.step, haddress, hclosed,
          hempty, Node.clientCapacity] at hnone

end Awaiting

end Federation

end FrostFederation
