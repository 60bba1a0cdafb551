/-
# FrostFederation.Node.Model — one node: its event loops, its services, its echo broadcast actor.

The model of `node.rs`, `membership.rs` and the two services.  A node runs one task for its echo
broadcast actor, one EVENT LOOP per connection, and the calls its main task makes on the
`EchoBroadcast` service; all of them share the membership and the queue of the actor.  A step of the
node is a piece of one task between two awaits, so every interleaving of the tasks is a run:

* an event loop takes a message from its client channel; a unicast is answered, a broadcast is handed
  to `EchoBroadcastHandle::send` with a snapshot of the membership and then, once that call has
  returned, to the service;
* `EchoBroadcastHandle::send` posts its command and waits for the oneshot (`SendPhase`);
* the actor handles the command at the head of its queue.  It shares its state with nobody and its
  messages go into the connections in order, so one command is one step (`EchoTask.process`).

What the peers send, which reliable sends of the actor succeed, and what the clock shows are inputs.
Endpoints of connections are of any type `E`; an endpoint stands for its reliable sender handle.
-/
import FrostFederation.EchoBroadcast.Waiters
import FrostFederation.Protocol.Service

namespace FrostFederation

open FrostFederation.Lib
open FrostFederation.Protocol
open FrostFederation.EchoBroadcast
  (ReliableSenderMap EchoBroadcastActor EchoBroadcastMessage EchoTask)

namespace Node

/-! ## Tasks -/

/-- Where a call of `EchoBroadcastHandle::send` stands. -/
inductive SendPhase (E : Type) where
  | posting (data : Message) (members : ReliableSenderMap E)
  | waiting (tx : Oneshot)

/-- Where a task stands.  An event loop is `receiving`, in the first call of
`respond_to_broadcast_message` (`echoing`) or in the service call after it (`serving`), and has
`ended` after its clean-up; a call of the main task is `serving` until it has `returned`. -/
inductive Phase (E : Type) where
  | absent
  | receiving
  | echoing (message : Broadcast) (send : SendPhase E)
  | serving (send : SendPhase E)
  | returned (result : ConnectionResult)
  | ended

namespace Phase

variable {E : Type}

/-- The call of `EchoBroadcastHandle::send` a task is in. -/
def send? : Phase E → Option (SendPhase E)
  | echoing _ send => some send
  | serving send => some send
  | _ => none

def setSend (send : SendPhase E) : Phase E → Phase E
  | echoing message _ => echoing message send
  | serving _ => serving send
  | phase => phase

end Phase

/-- The tasks that call `EchoBroadcastHandle::send`: the event loop of a connection, and the calls
of the main task in the order it makes them. -/
inductive Job (E : Type) where
  | eventLoop (e : E)
  | service (i : Nat)
  deriving DecidableEq

end Node

/-! ## The state of a node -/

structure Node (E : Type) where
  bindAddress : String
  messageIdGenerator : MessageIdGenerator
  members : ReliableSenderMap E
  /-- The address an event loop was started with. -/
  address : E → Option String
  /-- The client channel between the reliable sender of a connection and its event loop. -/
  inbox : E → List Message
  closed : E → Bool
  jobs : Node.Job E → Node.Phase E
  /-- How many calls the main task has made. -/
  services : Nat
  actor : Option (EchoBroadcastActor E)
  queue : List (EchoBroadcastMessage E)
  opened : Nat
  /-- What `EchoBroadcastHandle::send` returns once the oneshot has been answered or dropped. -/
  results : Oneshot → Option ConnectionResult

namespace Node

variable {E : Type}

/-- `Node::new`: the id generator is made with the default address. -/
def new : Node E where
  bindAddress := "localhost"
  messageIdGenerator := ⟨"localhost"⟩
  members := ∅
  address := fun _ => none
  inbox := fun _ => []
  closed := fun _ => false
  jobs := fun _ => .absent
  services := 0
  actor := some .start
  queue := []
  opened := 0
  results := fun _ => none

/-- The builder `bind_address`: the id generator keeps the address it was made with. -/
def withBindAddress (node : Node E) (address : String) : Node E :=
  { node with bindAddress := address }

def getNodeId (node : Node E) : String := node.bindAddress

/-- What the protocol services read of the node's state. -/
def state (node : Node E) : State := ⟨node.members.keys, node.messageIdGenerator⟩

variable [DecidableEq E]

def setJob (node : Node E) (j : Job E) (phase : Phase E) : Node E :=
  { node with jobs := Function.update node.jobs j phase }

/-- `start_connection_event_loop`. -/
def startConnectionEventLoop (node : Node E) (e : E) (address : String) : Node E :=
  { node.setJob (.eventLoop e) .receiving with
    address := Function.update node.address e (some address) }

/-- `MembershipActor::add_member`. -/
def addMember (node : Node E) (address : String) (e : E) : Node E :=
  { node with members := node.members.insert address e }

/-- `MembershipActor::remove_member`. -/
def removeMember (node : Node E) (address : String) : Node E :=
  { node with members := node.members.erase address }

/-! ## The `EchoBroadcast` service -/

section Service

variable (calculateHash : String → MessageId) (node : Node E) (nanos : Nat)

/-- `EchoBroadcast::call` up to the call of `EchoBroadcastHandle::send`. -/
def echoBroadcastCall (msg : Message) : Except String (SendPhase E) :=
  match call calculateHash node.getNodeId node.state nanos msg with
  | .ok (some data) => .ok (.posting data node.members)
  | _ => .error "Unknown message type in echo broadcast handle"

/-- The result of the service: an event loop discards it and goes on, a call of the main task
returns it. -/
def serviceReturned (result : ConnectionResult) : Job E → Phase E
  | .eventLoop _ => .receiving
  | .service _ => .returned result

/-- What a task does when its call of `EchoBroadcastHandle::send` returns. -/
def sendReturned (j : Job E) (result : ConnectionResult) : Phase E :=
  match node.jobs j with
  | .echoing message _ =>
      match echoBroadcastCall calculateHash node nanos (.ofBroadcast message) with
      | .ok send => .serving send
      | .error e => serviceReturned (.error e) j
  | .serving _ =>
      match result with
      | .ok () => serviceReturned (.ok ()) j
      | .error _ => serviceReturned (.error "Error sending echo broadcast") j
  | phase => phase

/-- `ReliableSend::call`: the reply of the protocol goes out on the connection. -/
def reliableSendCall (e : E) (msg : Message) : List (E × Message) :=
  match call calculateHash node.getNodeId node.state nanos msg with
  | .ok (some reply) => [(e, reply)]
  | _ => []

end Service

/-! ## Steps -/

/-- What happens to the calls of `EchoBroadcastHandle::send` when the actor answers or drops their
oneshot senders. -/
def settle (results : Oneshot → Option ConnectionResult) :
    EchoBroadcast.Effect E → Oneshot → Option ConnectionResult
  | .respond tx (.ok ()) => Function.update results tx (some (.ok ()))
  | .respond tx (.error _) => Function.update results tx (some (.error "Broadcast error"))
  | .drop tx => Function.update results tx (some (.error "channel closed"))
  | .reliableSend _ _ _ _ => results

/-- The messages the reliable sends write to their connections.  Whether one arrives is up to the
network: also a send that is reported as failed may have reached the peer. -/
def sentFrames (effects : List (EchoBroadcast.Effect E)) : List (E × Message) :=
  effects.filterMap fun
    | .reliableSend _ e data _ => some (e, data)
    | _ => none

inductive Input (E : Type) where
  | connect (e : E) (address : String)
  | register (e : E)
  /-- The reliable sender of a connection passes a received message up. -/
  | arrive (e : E) (message : Message)
  /-- The reliable sender of a connection is gone. -/
  | close (e : E)
  | receive (e : E) (nanos : Nat)
  | finish (e : E)
  /-- The main task sends a unicast request, as the handshake and the membership push. -/
  | request (e : E) (message : Unicast) (nanos : Nat)
  /-- The main task broadcasts a round-one package. -/
  | originate (message : String) (nanos : Nat)
  | post (j : Job E) (nanos : Nat)
  | wake (j : Job E) (nanos : Nat)
  /-- The service call of an event loop runs into its timeout. -/
  | timeout (e : E)
  | actor (reach : String → Bool)

/-- What a step shows: the messages that go out, the command that is posted to the actor, and the
command the actor has handled. -/
structure Event (E : Type) where
  input : Input E
  frames : List (E × Message)
  handed : Option (EchoBroadcastMessage E)
  processed : Option (EchoBroadcast.Event E)

/-- A step that shows nothing. -/
def Event.quiet (input : Input E) : Event E := ⟨input, [], none, none⟩

/-- The capacity of a client channel. -/
def clientCapacity : Nat := 32

/-- The channel holds 512 commands.  The command that the actor is at has left the channel, and stays at
the head of `queue` until it has been handled. -/
def queueCapacity : Nat := 512 + 1

section Step

variable (calculateHash : String → MessageId)

/-- One message of an event loop: `respond_to_unicast_message`, or the beginning of
`respond_to_broadcast_message`, which forwards the broadcast as it came. -/
def respond (node : Node E) (e : E) (nanos : Nat) : Message → Node E × List (E × Message)
  | .unicastMessage m => (node, reliableSendCall calculateHash node nanos e (.unicastMessage m))
  | .broadcastMessage m =>
      (node.setJob (.eventLoop e) (.echoing m (.posting (.ofBroadcast m) node.members)), [])

/-- The actor handles one command.  A panic ends its task: the queue is dropped with it. -/
def handleCommand (node : Node E) (reach : String → Bool) (command : EchoBroadcastMessage E)
    (rest : List (EchoBroadcastMessage E)) : Node E × EchoBroadcast.Event E :=
  match EchoTask.process node.actor reach command with
  | (some actor, event) =>
      ({ node with
         actor := some actor, queue := rest, results := event.effects.foldl settle node.results },
        event)
  | (none, event) =>
      ({ node with
         actor := none, queue := []
         results := (event.effects ++
           (rest.flatMap EchoTask.respondTo).map EchoBroadcast.Effect.drop).foldl settle
             node.results },
        event)

def step (node : Node E) (input : Input E) : Option (Node E × Event E) :=
  match input with
  | .connect e address =>
      match node.jobs (.eventLoop e) with
      | .absent => some (node.startConnectionEventLoop e address, .quiet input)
      | _ => none
  | .register e => (node.address e).map fun address => (node.addMember address e, .quiet input)
  | .arrive e message =>
      if (node.address e).isSome ∧ node.closed e = false ∧ (node.inbox e).length < clientCapacity then
        some ({ node with inbox := Function.update node.inbox e (node.inbox e ++ [message]) },
          .quiet input)
      else none
  | .close e =>
      some ({ node with closed := Function.update node.closed e true }, .quiet input)
  | .receive e nanos =>
      match node.jobs (.eventLoop e), node.inbox e with
      | .receiving, message :: rest =>
          let taken := { node with inbox := Function.update node.inbox e rest }
          let r := taken.respond calculateHash e nanos message
          some (r.1, ⟨input, r.2, none, none⟩)
      | _, _ => none
  | .finish e =>
      match node.jobs (.eventLoop e), node.inbox e, node.closed e, node.address e with
      | .receiving, [], true, some address =>
          some ((node.removeMember address).setJob (.eventLoop e) .ended, .quiet input)
      | _, _, _, _ => none
  | .request e message nanos =>
      some (node,
        ⟨input, reliableSendCall calculateHash node nanos e (.unicastMessage message), none, none⟩)
  | .originate message nanos =>
      match echoBroadcastCall calculateHash node nanos
          (.ofRoundOnePackage ⟨node.getNodeId, message⟩) with
      | .ok send =>
          some ({ node.setJob (.service node.services) (.serving send) with
            services := node.services + 1 }, .quiet input)
      | .error _ => none
  | .post j nanos =>
      match (node.jobs j).send?, node.actor with
      | some (.posting data members), some _ =>
          if node.queue.length < queueCapacity then
            some ({ node.setJob j ((node.jobs j).setSend (.waiting node.opened)) with
                queue := node.queue ++ [.send data members node.opened]
                opened := node.opened + 1 },
              ⟨input, [], some (.send data members node.opened), none⟩)
          else none
      | some (.posting _ _), none =>
          some (node.setJob j (node.sendReturned calculateHash nanos j (.error "Connection error")),
            .quiet input)
      | _, _ => none
  | .wake j nanos =>
      match (node.jobs j).send? with
      | some (.waiting tx) =>
          (node.results tx).map fun result =>
            (node.setJob j (node.sendReturned calculateHash nanos j result), .quiet input)
      | _ => none
  | .timeout e =>
      match node.jobs (.eventLoop e) with
      | .serving _ => some (node.setJob (.eventLoop e) .receiving, .quiet input)
      | _ => none
  | .actor reach =>
      match node.actor, node.queue with
      | some _, command :: rest =>
          let r := node.handleCommand reach command rest
          some (r.1, ⟨input, sentFrames r.2.effects, none, some r.2⟩)
      | _, _ => none

/-- The node as a machine. -/
def machine (E : Type) [DecidableEq E] : Machine (Node E) (Input E) (Event E) :=
  ⟨step calculateHash⟩

end Step

end Node

end FrostFederation
