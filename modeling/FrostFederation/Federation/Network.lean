/-
# FrostFederation.Federation.Network — honest nodes, connected to each other.

A federation is a set of nodes and a set of connections between them.  A connection has two
ENDPOINTS, one at each of its nodes, and a node knows its endpoint under the socket address that its
operating system reports for the other side: `start_accept` registers the address the connection
came from, `connect_to_seeds` the address it went to.  These addresses are arbitrary; in particular
nothing ties them to the bind address that the peer writes into its messages.

Between the nodes there is one FIFO link per direction of a connection.  What a node writes to an
endpoint is appended to the link of the other end, from where it is delivered to the client channel
of the peer or lost.  A run of the federation interleaves the steps of all nodes in any order.

The flow rule of one node lifts to all of them (`everywhere_step`): a property of broadcasts that
holds of what is originated, and that travels with a message along a connection, holds of every
broadcast anywhere in the federation.
-/
import FrostFederation.Node.Flow

namespace FrostFederation

open FrostFederation.Lib
open FrostFederation.Protocol
open FrostFederation.EchoBroadcast (ReliableSenderMap EchoBroadcastMessage)

structure Federation (N E : Type) where
  bindAddress : N → String
  /-- The node an endpoint belongs to. -/
  owner : E → N
  /-- The other end of a connection. -/
  peer : E → E
  /-- The socket address under which the owner of an endpoint registers it. -/
  address : E → String
  endpoints : List E
  peer_peer : ∀ e, peer (peer e) = e
  owner_peer : ∀ e, owner (peer e) ≠ owner e
  mem_endpoints : ∀ e, e ∈ endpoints
  nodup_endpoints : endpoints.Nodup

namespace Federation

variable {N E : Type}

/-- The nodes, and what is under way to each endpoint. -/
structure State (N E : Type) where
  node : N → Node E
  link : E → List Message

inductive Input (N E : Type) where
  | node (n : N) (input : Node.Input E)
  | deliver (e : E)
  | lose (e : E)

inductive Event (N E : Type) where
  | node (n : N) (ev : Node.Event E)
  | lost (e : E)

/-! ## Steps -/

section Step

variable [DecidableEq N] [DecidableEq E] (F : Federation N E) (calculateHash : String → MessageId)

/-- What a node does by itself: it uses its own endpoints, each under its address.  Messages arrive
over the links only. -/
def permits (n : N) : Node.Input E → Bool
  | .connect e address => F.owner e = n && address = F.address e
  | .register e => F.owner e = n
  | .arrive _ _ => false
  | .close e => F.owner e = n
  | .receive e _ => F.owner e = n
  | .finish e => F.owner e = n
  | .request e _ _ => F.owner e = n
  | .originate _ _ => true
  | .post _ _ => true
  | .wake _ _ => true
  | .timeout e => F.owner e = n
  | .actor _ => true

/-- The messages among `frames` that are bound for endpoint `e`. -/
def bound (frames : List (E × Message)) (e : E) : List Message :=
  frames.filterMap fun f => if F.peer f.1 = e then some f.2 else none

/-- Node `n` has gone on to `node` and has written `frames`. -/
def advance (s : State N E) (n : N) (node : Node E) (frames : List (E × Message)) : State N E where
  node := Function.update s.node n node
  link := fun e => s.link e ++ F.bound frames e

/-- Endpoint `e` has taken the head of its link. -/
def take (s : State N E) (e : E) (rest : List Message) : State N E :=
  { s with link := Function.update s.link e rest }

def step (s : State N E) : Input N E → Option (State N E × Event N E)
  | .node n input =>
      if F.permits n input then
        (Node.step calculateHash (s.node n) input).map fun r =>
          (F.advance s n r.1 r.2.frames, .node n r.2)
      else none
  | .deliver e =>
      match s.link e with
      | [] => none
      | message :: rest =>
          (Node.step calculateHash (s.node (F.owner e)) (.arrive e message)).map fun r =>
            (F.advance (take s e rest) (F.owner e) r.1 r.2.frames, .node (F.owner e) r.2)
  | .lose e =>
      match s.link e with
      | [] => none
      | _ :: rest => some (take s e rest, .lost e)

/-- The federation as a machine. -/
def machine : Machine (State N E) (Input N E) (Event N E) := ⟨F.step calculateHash⟩

/-! ## Where runs start -/

/-- Every node has been built and bound, and nobody is connected. -/
def initial : State N E where
  node := fun n => Node.new.withBindAddress (F.bindAddress n)
  link := fun _ => []

/-- The owner of an endpoint starts its event loop and registers it. -/
def connect (s : State N E) (e : E) : State N E :=
  { s with
    node := Function.update s.node (F.owner e)
      (((s.node (F.owner e)).startConnectionEventLoop e (F.address e)).addMember (F.address e) e) }

/-- Every connection is up and registered at both ends. -/
def connected : State N E := F.endpoints.foldl F.connect F.initial

end Step

/-! ## What one step can do -/

variable [DecidableEq N] [DecidableEq E] {F : Federation N E} {calculateHash : String → MessageId}

inductive Moved (F : Federation N E) (calculateHash : String → MessageId) (s : State N E)
    (ev : Event N E) (s' : State N E) : Prop
  | acted {n : N} {input : Node.Input E} {node : Node E} {nodeEv : Node.Event E}
      (hpermits : F.permits n input = true)
      (hstep : (Node.machine calculateHash E).step (s.node n) input = some (node, nodeEv))
      (hev : ev = .node n nodeEv) (hs' : s' = F.advance s n node nodeEv.frames) :
      Moved F calculateHash s ev s'
  | delivered {e : E} {message : Message} {rest : List Message} {node : Node E}
      {nodeEv : Node.Event E} (hlink : s.link e = message :: rest)
      (hstep : (Node.machine calculateHash E).step (s.node (F.owner e)) (.arrive e message) =
        some (node, nodeEv))
      (hev : ev = .node (F.owner e) nodeEv)
      (hs' : s' = F.advance (take s e rest) (F.owner e) node nodeEv.frames) :
      Moved F calculateHash s ev s'
  | lost {e : E} {message : Message} {rest : List Message} (hlink : s.link e = message :: rest)
      (hev : ev = .lost e) (hs' : s' = take s e rest) : Moved F calculateHash s ev s'

theorem moved_of_step {s s' : State N E} {input : Input N E} {ev : Event N E}
    (hs : (F.machine calculateHash).step s input = some (s', ev)) : Moved F calculateHash s ev s' := by
  simp only [machine, step] at hs
  cases input with
  | node n input =>
      simp only at hs
      split at hs
      · next hpermits =>
          obtain ⟨⟨node, nodeEv⟩, hstep, heq⟩ := Option.map_eq_some_iff.mp hs
          obtain ⟨rfl, rfl⟩ := Prod.mk.inj heq
          exact .acted hpermits hstep rfl rfl
      · cases hs
  | deliver e =>
      simp only at hs
      split at hs
      · cases hs
      · next message rest hlink =>
          obtain ⟨⟨node, nodeEv⟩, hstep, heq⟩ := Option.map_eq_some_iff.mp hs
          obtain ⟨rfl, rfl⟩ := Prod.mk.inj heq
          exact .delivered hlink hstep rfl rfl
  | lose e =>
      simp only at hs
      split at hs
      · cases hs
      · next message rest hlink =>
          obtain ⟨rfl, rfl⟩ := Prod.mk.inj (Option.some.inj hs)
          exact .lost hlink rfl rfl

/-- A step is a step of one node, or none. -/
theorem node_of_moved {s s' : State N E} {ev : Event N E} (hmoved : Moved F calculateHash s ev s') :
    (∃ e, ev = .lost e ∧ s'.node = s.node) ∨
      ∃ n input node nodeEv, ev = .node n nodeEv ∧
        (Node.machine calculateHash E).step (s.node n) input = some (node, nodeEv) ∧
        s'.node = Function.update s.node n node ∧ ∀ e x, input = .connect e x → F.owner e = n := by
  cases hmoved with
  | lost _ hev hs' => exact Or.inl ⟨_, hev, by rw [hs']; rfl⟩
  | acted hpermits hstep hev hs' =>
      refine Or.inr ⟨_, _, _, _, hev, hstep, by rw [hs']; rfl, ?_⟩
      rintro e x rfl
      simp only [permits, Bool.and_eq_true, decide_eq_true_eq] at hpermits
      exact hpermits.1
  | delivered _ hstep hev hs' =>
      refine Or.inr ⟨_, _, _, _, hev, hstep, by rw [hs']; rfl, ?_⟩
      rintro e x ⟨⟩

/-! ## What a run shows -/

/-- Every reliable send succeeds, and no connection closes. -/
def Calm : Node.Input E → Prop
  | .actor reach => ∀ x, reach x = true
  | .close _ => False
  | .finish _ => False
  | _ => True

/-- Nothing fails, nothing closes and nothing is lost. -/
def Undisturbed : Event N E → Prop
  | .node _ ev => Calm ev.input
  | .lost _ => False

def Event.origination? : Event N E → Option (N × String × Nat)
  | .node n ev =>
      match ev.input with
      | .originate message nanos => some (n, message, nanos)
      | _ => none
  | .lost _ => none

/-- The broadcasts that are originated in a run, and by whom. -/
def originations (tr : List (Event N E)) : List (N × String × Nat) :=
  tr.filterMap Event.origination?

/-- Node `n` hands its actor a Send with id `m`. -/
def Event.hands (n : N) (m : MessageId) : Event N E → Bool
  | .node n' ev => n' = n && ev.handsSend m
  | .lost _ => false

/-- How many Sends with id `m` node `n` hands to its actor in a run. -/
def handedSends (n : N) (m : MessageId) (tr : List (Event N E)) : Nat := tr.countP (Event.hands n m)

omit [DecidableEq E] in
theorem handedSends_snoc (n : N) (m : MessageId) (tr : List (Event N E)) (ev : Event N E) :
    handedSends n m (tr ++ [ev]) = handedSends n m tr + (ev.hands n m).toNat := by
  cases hev : ev.hands n m <;> simp [handedSends, hev]

/-! ## The connected state is reachable -/

omit [DecidableEq N] in
@[simp]
theorem bound_nil (e : E) : F.bound [] e = [] := rfl

theorem node_advance (s : State N E) (n : N) (node : Node E) (frames : List (E × Message)) :
    (F.advance s n node frames).node n = node :=
  Function.update_self _ _ _

/-- A node that writes nothing changes nothing but itself. -/
theorem advance_nil (s : State N E) (n : N) (node : Node E) :
    F.advance s n node [] = { s with node := Function.update s.node n node } := by
  simp [advance]

/-- A step of one node, as a step of the federation. -/
theorem node_step (F : Federation N E) {s : State N E} {n : N} {input : Node.Input E} {node : Node E}
    {nodeEv : Node.Event E} (hpermits : F.permits n input = true)
    (hstep : (Node.machine calculateHash E).step (s.node n) input = some (node, nodeEv)) :
    (F.machine calculateHash).step s (.node n input) =
      some (F.advance s n node nodeEv.frames, .node n nodeEv) := by
  have hstep' : Node.step calculateHash (s.node n) input = some (node, nodeEv) := hstep
  simp [machine, step, hpermits, hstep']

/-- A delivery, as a step of the federation. -/
theorem deliver_step (F : Federation N E) {s : State N E} {e : E} {message : Message}
    {rest : List Message} {node : Node E} {nodeEv : Node.Event E}
    (hlink : s.link e = message :: rest)
    (hstep : (Node.machine calculateHash E).step (s.node (F.owner e)) (.arrive e message) =
      some (node, nodeEv)) :
    (F.machine calculateHash).step s (.deliver e) =
      some (F.advance (take s e rest) (F.owner e) node nodeEv.frames, .node (F.owner e) nodeEv) := by
  have hstep' : Node.step calculateHash (s.node (F.owner e)) (.arrive e message) =
      some (node, nodeEv) := hstep
  simp [machine, step, hlink, hstep']

/-- Inputs that disturb nothing lead to steps that disturb nothing. -/
theorem undisturbed_of_step {s s' : State N E} {input : Input N E} {ev : Event N E}
    (hs : (F.machine calculateHash).step s input = some (s', ev)) (hlose : ∀ e, input ≠ .lose e)
    (hcalm : ∀ n nodeInput, input = .node n nodeInput → Calm nodeInput) : Undisturbed ev := by
  cases input with
  | lose e => exact absurd rfl (hlose e)
  | node n nodeInput =>
      simp only [machine, step] at hs
      split at hs
      · obtain ⟨⟨node, nodeEv⟩, hstep, heq⟩ := Option.map_eq_some_iff.mp hs
        obtain ⟨-, rfl⟩ := Prod.mk.inj heq
        show Calm nodeEv.input
        rw [(Node.kept_of_step hstep).caused]
        exact hcalm n nodeInput rfl
      · cases hs
  | deliver e =>
      simp only [machine, step] at hs
      split at hs
      · cases hs
      · next message rest _ =>
          obtain ⟨⟨node, nodeEv⟩, hstep, heq⟩ := Option.map_eq_some_iff.mp hs
          obtain ⟨-, rfl⟩ := Prod.mk.inj heq
          have harrive : (Node.machine calculateHash E).step (s.node (F.owner e)) (.arrive e message) =
              some (node, nodeEv) := hstep
          show Calm nodeEv.input
          rw [(Node.kept_of_step harrive).caused]
          trivial

/-- Connecting and registering an endpoint are two steps of its owner. -/
theorem run_connect (calculateHash : String → MessageId) {s : State N E} {e : E}
    (habsent : (s.node (F.owner e)).jobs (.eventLoop e) = .absent) :
    ∃ tr, (F.machine calculateHash).Run s tr (F.connect s e) ∧ originations tr = [] := by
  have hconnect : (Node.machine calculateHash E).step (s.node (F.owner e)) (.connect e (F.address e)) =
      some ((s.node (F.owner e)).startConnectionEventLoop e (F.address e),
        .quiet (.connect e (F.address e))) := by
    simp [Node.machine, Node.step, habsent]
  have hfirst := node_step F (by simp [permits]) hconnect
  generalize hs₁ : F.advance s (F.owner e) ((s.node (F.owner e)).startConnectionEventLoop e (F.address e))
    (Node.Event.quiet (.connect e (F.address e))).frames = s₁ at hfirst
  have hnode : s₁.node (F.owner e) =
      (s.node (F.owner e)).startConnectionEventLoop e (F.address e) := by
    rw [← hs₁, node_advance]
  have hregister : (Node.machine calculateHash E).step (s₁.node (F.owner e)) (.register e) =
      some (((s.node (F.owner e)).startConnectionEventLoop e (F.address e)).addMember (F.address e) e,
        .quiet (.register e)) := by
    simp [Node.machine, Node.step, hnode, Node.startConnectionEventLoop]
  have hsecond := node_step F (by simp [permits]) hregister
  have hend : F.advance s₁ (F.owner e)
      (((s.node (F.owner e)).startConnectionEventLoop e (F.address e)).addMember (F.address e) e) [] =
      F.connect s e := by
    rw [advance_nil, ← hs₁]
    simp [connect, advance, Node.Event.quiet]
  rw [← hend]
  exact ⟨_, (Machine.RunWith.single hfirst trivial).snoc hsecond trivial, rfl⟩

/-- Connecting one endpoint leaves the event loops of the others as they are. -/
theorem eventLoop_connect (s : State N E) {e e' : E} (hne : e' ≠ e) (n : N) :
    ((F.connect s e).node n).jobs (.eventLoop e') = (s.node n).jobs (.eventLoop e') := by
  by_cases hn : n = F.owner e
  · subst hn
    simp [connect, Node.addMember, Node.startConnectionEventLoop, Node.setJob, hne]
  · simp [connect, hn]

theorem reachable_connected (F : Federation N E) (calculateHash : String → MessageId) :
    (F.machine calculateHash).Reachable F.initial F.connected := by
  have hfold : ∀ (l : List E) (s : State N E), l.Nodup →
      (∀ e ∈ l, (s.node (F.owner e)).jobs (.eventLoop e) = .absent) →
      (F.machine calculateHash).Reachable s (l.foldl F.connect s) := by
    intro l
    induction l with
    | nil => exact fun s _ _ => ⟨[], .nil⟩
    | cons e l ih =>
        intro s hnodup habsent
        obtain ⟨he, hl⟩ := List.nodup_cons.mp hnodup
        have hrest : ∀ e' ∈ l,
            ((F.connect s e).node (F.owner e')).jobs (.eventLoop e') = .absent := by
          intro e' he'
          have hne : e' ≠ e := by
            rintro rfl
            exact he he'
          rw [eventLoop_connect s hne]
          exact habsent e' (List.mem_cons_of_mem _ he')
        obtain ⟨tr₁, hrun₁, -⟩ := run_connect calculateHash (habsent e List.mem_cons_self)
        obtain ⟨tr₂, hrun₂⟩ := ih (F.connect s e) hl hrest
        exact ⟨tr₁ ++ tr₂, hrun₁.append hrun₂⟩
  exact hfold F.endpoints F.initial F.nodup_endpoints fun _ _ => rfl

/-! ## Everything the federation carries -/

/-- The member maps of node `n` name its own endpoints, each under its address. -/
def Registered (F : Federation N E) (n : N) (members : ReliableSenderMap E) : Prop :=
  ∀ x e, members.lookup x = some e → F.owner e = n ∧ F.address e = x

/-- The package node `o` originates: under its bind address, and with an id from a generator that
was made with the default address. -/
def package (F : Federation N E) (calculateHash : String → MessageId) (o : N) (message : String)
    (nanos : Nat) : Message :=
  .broadcastMessage (.roundOnePackage ⟨F.bindAddress o, message⟩
    (some (MessageIdGenerator.next calculateHash ⟨"localhost"⟩ nanos)))

/-- Every broadcast at node `n`, or on a link to it, has `P n`. -/
structure Everywhere (F : Federation N E) (P : N → Message → Prop) (s : State N E) : Prop where
  nodes : ∀ n, (s.node n).Carries (P n) (F.Registered n)
  links : ∀ e b, .broadcastMessage b ∈ s.link e → P (F.owner e) (.broadcastMessage b)
  members : ∀ n, F.Registered n (s.node n).members
  address : ∀ n e x, (s.node n).address e = some x → F.owner e = n ∧ F.address e = x
  bindAddress : ∀ n, (s.node n).bindAddress = F.bindAddress n
  messageIdGenerator : ∀ n, (s.node n).messageIdGenerator = ⟨"localhost"⟩

section Everywhere

variable {P : N → Message → Prop}

omit [DecidableEq E] [DecidableEq N] in
theorem everywhere_initial : F.Everywhere P F.initial where
  nodes := fun n =>
    ⟨by simp [initial, Node.new, Node.withBindAddress], fun _ => trivial,
      by simp [initial, Node.new, Node.withBindAddress]⟩
  links := by simp [initial]
  members := by
    intro n x e h
    simp [initial, Node.new, Node.withBindAddress] at h
  address := by simp [initial, Node.new, Node.withBindAddress]
  bindAddress := fun _ => rfl
  messageIdGenerator := fun _ => rfl

omit [DecidableEq E] [DecidableEq N] in
theorem Everywhere.mono {P' : N → Message → Prop} {s : State N E} (h : F.Everywhere P s)
    (hPP' : ∀ n data, P n data → P' n data) : F.Everywhere P' s :=
  { h with
    nodes := fun n => (h.nodes n).mono (hPP' n)
    links := fun e b hb => hPP' _ _ (h.links e b hb) }

omit [DecidableEq E] [DecidableEq N] in
theorem Everywhere.newPackage {s : State N E} (h : F.Everywhere P s) (n : N) (message : String)
    (nanos : Nat) : Node.newPackage calculateHash (s.node n) message nanos =
      F.package calculateHash n message nanos := by
  simp only [Node.newPackage, package, h.bindAddress n, h.messageIdGenerator n]

omit [DecidableEq N] in
theorem everywhere_take {s : State N E} (h : F.Everywhere P s) {e : E} {message : Message}
    {rest : List Message} (hlink : s.link e = message :: rest) : F.Everywhere P (take s e rest) where
  nodes := h.nodes
  links := fun e' b hb => h.links e' b (Node.mem_of_mem_update hlink hb)
  members := h.members
  address := h.address
  bindAddress := h.bindAddress
  messageIdGenerator := h.messageIdGenerator

/-- A step of one node keeps the property, given what it takes in. -/
theorem everywhere_advance
    (hid : ∀ n b, P n (.broadcastMessage b) → (Message.broadcastMessage b).getMessageId ≠ none)
    (hflow : ∀ e data, P (F.owner e) data → P (F.owner (F.peer e)) data)
    {s : State N E} (h : F.Everywhere P s) {n : N} {input : Node.Input E} {node : Node E}
    {nodeEv : Node.Event E}
    (hstep : (Node.machine calculateHash E).step (s.node n) input = some (node, nodeEv))
    (harrive : ∀ e b, input = .arrive e (.broadcastMessage b) → P n (.broadcastMessage b))
    (hconnect : ∀ e x, input = .connect e x → F.owner e = n ∧ F.address e = x)
    (horiginate : ∀ message nanos, input = .originate message nanos →
      P n (F.package calculateHash n message nanos)) :
    F.Everywhere P (F.advance s n node nodeEv.frames) ∧
      Node.Emits (P n) (F.Registered n) nodeEv := by
  have hkept := Node.kept_of_step hstep
  have hin : Node.Admits (P n) (F.Registered n) calculateHash (s.node n) nodeEv := by
    refine ⟨?_, ?_, fun _ => h.members n⟩
    · exact fun e b heq => harrive e b (hkept.caused.symm.trans heq)
    · intro message nanos heq
      rw [h.newPackage]
      exact horiginate message nanos (hkept.caused.symm.trans heq)
  obtain ⟨hcarries, hemits⟩ :=
    Node.carries_step (hid n) (h.nodes n) (Node.change_of_step hstep) hin
  have hmembers : F.Registered n node.members := by
    intro x e hl
    rcases hkept.members x e hl with hold | haddress
    · exact h.members n x e hold
    · exact h.address n e x haddress
  have haddress : ∀ e x, node.address e = some x → F.owner e = n ∧ F.address e = x := by
    intro e x hx
    rcases hkept.address e x hx with hold | hinput
    · exact h.address n e x hold
    · exact hconnect e x hinput
  refine ⟨⟨?_, ?_, ?_, ?_, ?_, ?_⟩, hemits⟩
  · exact (Function.forall_update_iff s.node fun n node => node.Carries (P n) (F.Registered n)).mpr
      ⟨hcarries, fun n' _ => h.nodes n'⟩
  · -- a frame goes to the other end of an endpoint of `n`
    intro e b hb
    rcases List.mem_append.mp hb with hold | hnew
    · exact h.links e b hold
    · obtain ⟨f, hf, heq⟩ := List.mem_filterMap.mp hnew
      split at heq
      · next hpeer =>
          have hdata : f.2 = .broadcastMessage b := Option.some.inj heq
          rcases hemits.frames f hf with ⟨u, hu⟩ | ⟨hP, members, x, hQ, hl⟩
          · cases hu.symm.trans hdata
          · rw [← hpeer, ← hdata]
            refine hflow f.1 f.2 ?_
            rwa [(hQ x f.1 hl).1]
      · cases heq
  · exact (Function.forall_update_iff s.node fun n node => F.Registered n node.members).mpr
      ⟨hmembers, fun n' _ => h.members n'⟩
  · exact (Function.forall_update_iff s.node fun n node => ∀ e x, node.address e = some x →
      F.owner e = n ∧ F.address e = x).mpr ⟨haddress, fun n' _ => h.address n'⟩
  · exact (Function.forall_update_iff s.node fun n node => node.bindAddress = F.bindAddress n).mpr
      ⟨hkept.bindAddress.trans (h.bindAddress n), fun n' _ => h.bindAddress n'⟩
  · exact (Function.forall_update_iff s.node fun _ node =>
      node.messageIdGenerator = ⟨"localhost"⟩).mpr
      ⟨hkept.messageIdGenerator.trans (h.messageIdGenerator n), fun n' _ => h.messageIdGenerator n'⟩

/-- **The flow rule of the federation.**  If what is originated has `P`, and `P` goes with a message
from one end of a connection to the other, then it holds everywhere, and of all that goes out. -/
theorem everywhere_step
    (hid : ∀ n b, P n (.broadcastMessage b) → (Message.broadcastMessage b).getMessageId ≠ none)
    (hflow : ∀ e data, P (F.owner e) data → P (F.owner (F.peer e)) data)
    {s s' : State N E} {ev : Event N E} (h : F.Everywhere P s)
    (hmoved : Moved F calculateHash s ev s')
    (horiginate : ∀ n nodeEv message nanos, ev = .node n nodeEv →
      nodeEv.input = .originate message nanos →
      P n (F.package calculateHash n message nanos)) :
    F.Everywhere P s' ∧
      ∀ n nodeEv, ev = .node n nodeEv → Node.Emits (P n) (F.Registered n) nodeEv := by
  cases hmoved with
  | lost hlink hev hs' =>
      subst hev hs'
      refine ⟨everywhere_take h hlink, ?_⟩
      intro n nodeEv heq
      cases heq
  | @acted n input node nodeEv hpermits hstep hev hs' =>
      subst hev hs'
      have hcaused := (Node.kept_of_step hstep).caused
      obtain ⟨hnext, hemits⟩ := everywhere_advance hid hflow h hstep
        (by rintro e b rfl; simp [permits] at hpermits)
        (by
          rintro e x rfl
          simp only [permits, Bool.and_eq_true, decide_eq_true_eq] at hpermits
          exact ⟨hpermits.1, hpermits.2.symm⟩)
        (fun message nanos heq => horiginate n nodeEv message nanos rfl (hcaused.trans heq))
      refine ⟨hnext, ?_⟩
      rintro n' nodeEv' ⟨⟩
      exact hemits
  | @delivered e message rest node nodeEv hlink hstep hev hs' =>
      subst hev hs'
      obtain ⟨hnext, hemits⟩ := everywhere_advance hid hflow (everywhere_take h hlink) hstep
        (by
          rintro e' b ⟨⟩
          exact h.links e b (by rw [hlink]; exact List.mem_cons_self))
        (by rintro e' x ⟨⟩) (by rintro message' nanos ⟨⟩)
      refine ⟨hnext, ?_⟩
      rintro n' nodeEv' ⟨⟩
      exact hemits

end Everywhere

/-! ## Two nodes -/

/-- Two nodes, of which the first has the second as its seed: the first registers the address it
connected to, the second the port the connection came from. -/
def seeded : Federation Bool Bool where
  bindAddress := fun n => if n then "127.0.0.1:6681" else "127.0.0.1:6680"
  owner := id
  peer := not
  address := fun e => if e then "127.0.0.1:50001" else "127.0.0.1:6681"
  endpoints := [false, true]
  peer_peer := by decide
  owner_peer := by decide
  mem_endpoints := by decide
  nodup_endpoints := by decide

/-- Both nodes connect and register. -/
def bothConnect : List (Input Bool Bool) :=
  [.node false (.connect false "127.0.0.1:6681"), .node false (.register false),
    .node true (.connect true "127.0.0.1:50001"), .node true (.register true)]

/-- The second node broadcasts, the first re-broadcasts the copy it hears, and the second
re-broadcasts the copy it hears back. -/
def echoedBack : List (Input Bool Bool) :=
  [.node true (.originate "hello from round one package" 1), .node true (.post (.service 0) 0),
    .node true (.actor fun _ => true),
    .deliver false, .node false (.receive false 0), .node false (.post (.eventLoop false) 0),
    .node false (.actor fun _ => true),
    .deliver true, .node true (.receive true 0), .node true (.post (.eventLoop true) 0)]

end Federation

end FrostFederation
