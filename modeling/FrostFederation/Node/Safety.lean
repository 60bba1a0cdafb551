/-
# FrostFederation.Node.Safety — what a peer can do to the echo broadcast actor.

The actor is one task for the whole node, and an `unwrap` in it ends broadcasting for good.  Two of
its `unwrap`s can be reached through an event loop: a broadcast WITHOUT a message id is a message
that decodes, and it is forwarded to the actor as it came; and a Send to nobody finds no entry to
record the sender's own echo in.  Nothing else can end the task: as long as every broadcast that
arrives carries a message id, and the membership is not empty when a snapshot of it is taken, no
command on the way to the actor panics in any state of the actor.  That is the invariant `Sound`;
`Node.Liveness` carries it over to the node that awaits its reliable sends, and says when the node's
own broadcasts are processed.
-/
import FrostFederation.Node.Flow

namespace FrostFederation.Node

open FrostFederation.Lib
open FrostFederation.Protocol
open FrostFederation.EchoBroadcast (ReliableSenderMap EchoBroadcastActor EchoBroadcastMessage EchoTask)

variable {E : Type} [DecidableEq E] {calculateHash : String → MessageId}

/-! ## The condition -/

def Identified (data : Message) : Prop := data.getMessageId ≠ none

def Populated (members : ReliableSenderMap E) : Prop := members.keys ≠ []

/-- Broadcasts arrive with a message id, and a snapshot of the membership is not empty. -/
structure WellFed (node : Node E) (ev : Event E) : Prop where
  identified : ∀ e m, ev.input = .arrive e (.broadcastMessage m) → Identified (.broadcastMessage m)
  populated : Snapshots node ev → Populated node.members

omit [DecidableEq E] in
theorem admits_of_wellFed {node : Node E} {ev : Event E} (h : WellFed node ev) :
    Admits Identified Populated calculateHash node ev where
  arrive := h.identified
  originate := by
    intro message nanos _
    simp [Identified, newPackage, Message.getMessageId]
  snapshot := h.populated

/-! ## One command -/

omit [DecidableEq E] in
theorem wellIdentified_of_sendsOnly {command : EchoBroadcastMessage E}
    (hcommand : SendsOnly Identified Populated command) : command.wellIdentified = true := by
  obtain ⟨data, members, tx, rfl, hdata, hmembers⟩ := hcommand
  simpa [EchoBroadcastMessage.wellIdentified] using
    ⟨Option.isSome_iff_ne_none.mpr hdata, hmembers⟩

omit [DecidableEq E] in
/-- An identified Send to somebody is handled in every state of the actor. -/
theorem process_of_sendsOnly {command : EchoBroadcastMessage E}
    (hcommand : SendsOnly Identified Populated command) (a : EchoBroadcastActor E)
    (reach : String → Bool) :
    ∃ a' event result, EchoTask.process (some a) reach command = (some a', event) ∧
      event.command = command ∧ event.outcome = .returned result := by
  have hhandled := EchoTask.handleMessage_ne_none (wellIdentified_of_sendsOnly hcommand) a reach
  obtain ⟨⟨a', effects, result⟩, hh⟩ := Option.ne_none_iff_exists'.mp hhandled
  refine ⟨a', ⟨command, reach, .returned result, effects⟩, result, ?_, rfl, rfl⟩
  simp only [EchoTask.process, hh]

/-! ## The invariant -/

/-- The actor is alive, and everything on the way to it is harmless. -/
structure Sound (node : Node E) : Prop where
  carries : Carries Identified Populated node
  alive : node.actor.isSome = true

omit [DecidableEq E] in
theorem sound_new (address : String) : Sound (new.withBindAddress address : Node E) where
  carries := ⟨by simp [new, withBindAddress], fun _ => trivial, by simp [new, withBindAddress]⟩
  alive := rfl

/-- **A step keeps the actor alive, and the command it handles does not panic.** -/
theorem sound_step {node node' : Node E} {ev : Event E} (hsound : Sound node)
    (hchange : Change calculateHash node ev node') (hfed : WellFed node ev) :
    Sound node' ∧ Emits Identified Populated ev ∧
      ∀ event, ev.processed = some event → ∃ result, event.outcome = .returned result := by
  obtain ⟨hcarries, hemits⟩ :=
    carries_step (fun _ h => h) hsound.carries hchange (admits_of_wellFed hfed)
  rcases actor_cases hchange with ⟨hnone, hactor⟩ | ⟨reach, command, rest, a, -, hqueue, hsome, hactor⟩
  · refine ⟨⟨hcarries, by rw [hactor]; exact hsound.alive⟩, hemits, ?_⟩
    intro event hevent
    cases hnone.symm.trans hevent
  · have hcommand := hsound.carries.queue command (by rw [hqueue]; exact List.mem_cons_self)
    obtain ⟨a', event', result, hp, -, hout⟩ := process_of_sendsOnly hcommand a reach
    refine ⟨⟨hcarries, by rw [hactor, hp]; rfl⟩, hemits, ?_⟩
    intro event hevent
    rw [hp] at hsome
    obtain rfl := Option.some.inj (hsome.symm.trans hevent)
    exact ⟨result, hout⟩

/-! ## How a broadcast of the node gets to its actor -/

/-- The node after its main task has begun to serve a broadcast. -/
def serving (node : Node E) (data : Message) : Node E :=
  { node.setJob (.service node.services) (.serving (.posting data node.members)) with
    services := node.services + 1 }

theorem step_originate (calculateHash : String → MessageId) (node : Node E) (message : String)
    (nanos : Nat) :
    (machine calculateHash E).step node (.originate message nanos) =
      some (node.serving (newPackage calculateHash node message nanos),
        .quiet (.originate message nanos)) :=
  rfl

/-- The node after job `j` has posted its Send. -/
def posted (node : Node E) (j : Job E) (data : Message) (members : ReliableSenderMap E) : Node E :=
  { node.setJob j ((node.jobs j).setSend (.waiting node.opened)) with
    queue := node.queue ++ [.send data members node.opened]
    opened := node.opened + 1 }

theorem step_post (calculateHash : String → MessageId) {node : Node E} {j : Job E} {data : Message}
    {members : ReliableSenderMap E}
    (hphase : (node.jobs j).send? = some (.posting data members)) (ha : node.actor.isSome = true)
    (hlen : node.queue.length < queueCapacity) (nanos : Nat) :
    (machine calculateHash E).step node (.post j nanos) = some (node.posted j data members,
      ⟨.post j nanos, [], some (.send data members node.opened), none⟩) := by
  obtain ⟨a, ha⟩ := Option.isSome_iff_exists.mp ha
  simp [machine, step, hphase, ha, hlen, posted]

/-! ## One connection -/

/-- A node with one registered connection. -/
def oneConnection : Node Unit :=
  ((new.withBindAddress "localhost:6680").startConnectionEventLoop () "127.0.0.1:50001").addMember
    "127.0.0.1:50001" ()

/-- A package with a message id arrives over a connection whose event loop is running and whose
`add_member` has not been processed. -/
def packageUnregistered : List (Input Unit) :=
  [.connect () "127.0.0.1:50001", .arrive () (.package "localhost:6681" "hello" 1), .receive () 0,
    .post (.eventLoop ()) 0, .actor fun _ => true]

/-- **A Send to nobody ends the actor.**  The package carries an id, the snapshot of the membership
is empty, and the entry that `send_message` unwraps was never made. -/
theorem panics_packageUnregistered :
    (EchoBroadcastActor.start : EchoBroadcastActor Unit).handleMessage (fun _ => true)
        (.send (.package "localhost:6681" "hello" 1) ∅ 0) = none ∧
      ∃ tr node, (machine hashLength Unit).Run (new.withBindAddress "localhost:6680") tr node ∧
        tr.map Event.input = packageUnregistered ∧ node.actor = none ∧
        ∃ ev ∈ tr, ∃ event, ev.processed = some event ∧ event.outcome = .panicked ∧
          event.command = .send (.package "localhost:6681" "hello" 1) ∅ 0 := by
  have hexec : (machine hashLength Unit).exec (new.withBindAddress "localhost:6680")
      packageUnregistered = some (_, _) := rfl
  refine ⟨rfl, _, _, Machine.run_of_exec hexec, rfl, rfl, ?_⟩
  exact ⟨_, List.mem_of_getElem? (i := 4) rfl, _, rfl, rfl, rfl⟩

end FrostFederation.Node
