/-
# FrostFederation.ReliableSender.Actor — the reliable sender actor and the task that runs it.

The model of `node/reliable_sender/mod.rs`.  The actor numbers the messages of its clients, keeps the
message and the oneshot sender of each client until the acknowledgement of that number comes in,
acknowledges every message it receives, and passes it up to the client channel.  The results of the
two things it can fail at, the connection and the client channel, are inputs of the step.

`handle_connection_message` awaits twice, once for the acknowledgement to be written and once for
the client channel.  The peer may run between the two, so the task stops there: a received message
that has been acknowledged is SUSPENDED until it is passed up, and nothing else is taken from the
two receivers in the meantime.
-/
import FrostFederation.Lib.HashMap
import FrostFederation.Lib.Run
import FrostFederation.Protocol.Message

namespace FrostFederation

/-- One oneshot channel. -/
abbrev Oneshot := Nat

/-- `Result<(), ConnectionError>`. -/
abbrev ConnectionResult := Except String Unit

namespace ReliableSender

open FrostFederation.Lib
open FrostFederation.Protocol

/-! ## State and effects -/

inductive ReliableNetworkMessage where
  | send (message : Message) (sequenceNumber : UInt64)
  | ack (sequenceNumber : UInt64)
  deriving DecidableEq, Repr

/-- The message a client waits for, and the sender half of its oneshot channel. -/
abbrev AckWaiter := Message × Oneshot

structure ReliableSenderActor where
  waitingForAck : HashMap UInt64 AckWaiter
  sequenceNumber : UInt64

/-- What a handler does to the world outside the actor. -/
inductive Effect where
  | connectionSend (frame : ReliableNetworkMessage) (ok : Bool)
  | respond (tx : Oneshot) (result : ConnectionResult)
  | clientSend (message : Message) (ok : Bool)
  /-- The sender half is dropped unanswered. -/
  | drop (tx : Oneshot)
  deriving DecidableEq

namespace ReliableSenderActor

/-- `ReliableSenderActor::new`. -/
def new : ReliableSenderActor := ⟨∅, 0⟩

/-! ## Handlers -/

/-- The number is a `u64`: in a release build the one after the last is 0 again. -/
def nextSequenceNumber (actor : ReliableSenderActor) : ReliableSenderActor × UInt64 :=
  ({ actor with sequenceNumber := actor.sequenceNumber + 1 }, actor.sequenceNumber + 1)

/-- `handle_message`: the result of the connection is not looked at. -/
def handleMessage (actor : ReliableSenderActor) (connected : Bool) (message : Message)
    (respondTo : Oneshot) : ReliableSenderActor × List Effect :=
  let (actor, sequenceNumber) := actor.nextSequenceNumber
  ({ actor with
     waitingForAck := actor.waitingForAck.insert sequenceNumber (message, respondTo) },
   -- `insert` returns the waiter it replaces, which is dropped on the spot
   ((actor.waitingForAck.lookup sequenceNumber).map fun waiter => Effect.drop waiter.2).toList ++
     [.connectionSend (.send message sequenceNumber) connected])

/-- `handle_connection_message` up to its second await, with the message that is left to pass up. -/
def receiveFrame (actor : ReliableSenderActor) (connected : Bool) :
    ReliableNetworkMessage → ReliableSenderActor × List Effect × Except String (Option Message)
  | .send message sequenceNumber =>
      (actor, [.connectionSend (.ack sequenceNumber) connected],
        if connected then .ok (some message) else .error "Error sending ack")
  | .ack sequenceNumber =>
      match actor.waitingForAck.lookup sequenceNumber with
      | some (_, sender) =>
          ({ actor with waitingForAck := actor.waitingForAck.erase sequenceNumber },
            [.respond sender (.ok ())], .ok none)
      | none => (actor, [], .ok none)

/-- `handle_connection_message`.  A closed client channel is logged and changes nothing. -/
def handleConnectionMessage (actor : ReliableSenderActor) (connected clientOpen : Bool)
    (frame : ReliableNetworkMessage) : ReliableSenderActor × List Effect × Except String Unit :=
  match actor.receiveFrame connected frame with
  | (actor, effects, .error e) => (actor, effects, .error e)
  | (actor, effects, .ok none) => (actor, effects, .ok ())
  | (actor, effects, .ok (some message)) =>
      (actor, effects ++ [.clientSend message clientOpen], .ok ())

end ReliableSenderActor

/-! ## The task -/

/-- What `start_reliable_sender` works on: the actor, the received message that waits for the client
channel, and the number of oneshot channels the handle has opened. -/
structure SenderTask where
  actor : ReliableSenderActor
  suspended : Option Message
  opened : Nat

/-- One step of the task: a client's message, a frame from the connection, or the end of a wait for
the client channel. -/
inductive Input where
  | send (message : Message) (connected : Bool)
  | receive (frame : ReliableNetworkMessage) (connected : Bool)
  | passUp (clientOpen : Bool)

inductive Command where
  | send (message : Message) (respondTo : Oneshot)
  | network (frame : ReliableNetworkMessage)
  | passUp (message : Message)
  deriving DecidableEq

/-- What was processed in one step, and its effects. -/
structure Event where
  command : Command
  effects : List Effect
  deriving DecidableEq

namespace SenderTask

def start : SenderTask := ⟨.new, none, 0⟩

/-- The message that is left to pass up after a frame; an error is logged and the loop goes on. -/
def leftOver : Except String (Option Message) → Option Message
  | .ok message => message
  | .error _ => none

/-- The body of the loop of `start_reliable_sender`. -/
def step (t : SenderTask) : Input → Option (SenderTask × Event)
  | .send message connected =>
      match t.suspended with
      | some _ => none
      | none =>
          let r := t.actor.handleMessage connected message t.opened
          some (⟨r.1, none, t.opened + 1⟩, ⟨.send message t.opened, r.2⟩)
  | .receive frame connected =>
      match t.suspended with
      | some _ => none
      | none =>
          let r := t.actor.receiveFrame connected frame
          some (⟨r.1, leftOver r.2.2, t.opened⟩, ⟨.network frame, r.2.1⟩)
  | .passUp clientOpen =>
      match t.suspended with
      | none => none
      | some message =>
          some ({ t with suspended := none }, ⟨.passUp message, [.clientSend message clientOpen]⟩)

def machine : Machine SenderTask Input Event := ⟨step⟩

/-- A frame is processed in exactly the steps that receive it. -/
theorem network_iff_of_step {t t' : SenderTask} {i : Input} {e : Event}
    (hs : machine.step t i = some (t', e)) (frame : ReliableNetworkMessage) :
    e.command = .network frame ↔ ∃ connected, i = .receive frame connected := by
  cases i with
  | send message connected =>
      cases hidle : t.suspended with
      | some waiting => simp [machine, step, hidle] at hs
      | none =>
          simp only [machine, step, hidle, Option.some.injEq, Prod.mk.injEq] at hs
          simp [← hs.2]
  | receive frame' connected =>
      cases hidle : t.suspended with
      | some waiting => simp [machine, step, hidle] at hs
      | none =>
          simp only [machine, step, hidle, Option.some.injEq, Prod.mk.injEq] at hs
          simp [← hs.2]
  | passUp clientOpen =>
      cases hsome : t.suspended with
      | none => simp [machine, step, hsome] at hs
      | some message =>
          simp only [machine, step, hsome, Option.some.injEq, Prod.mk.injEq] at hs
          simp [← hs.2]

/-- The steps that handle one frame: a message that could be acknowledged is passed up. -/
def handling (frame : ReliableNetworkMessage) (connected clientOpen : Bool) : List Input :=
  match frame, connected with
  | .send _ _, true => [.receive frame connected, .passUp clientOpen]
  | _, _ => [.receive frame connected]

/-- **The steps of a frame are `handle_connection_message`**: run one after the other they give its
state and its effects. -/
theorem exec_handling (t : SenderTask) (frame : ReliableNetworkMessage)
    (connected clientOpen : Bool) (hidle : t.suspended = none) :
    ∃ events,
      machine.exec t (handling frame connected clientOpen) =
        some (⟨(t.actor.handleConnectionMessage connected clientOpen frame).1, none, t.opened⟩,
          events) ∧
      events.flatMap Event.effects =
        (t.actor.handleConnectionMessage connected clientOpen frame).2.1 := by
  cases frame with
  | ack n =>
      cases hl : t.actor.waitingForAck.lookup n <;>
        simp [handling, Machine.exec, machine, step, hidle, leftOver, hl,
          ReliableSenderActor.handleConnectionMessage, ReliableSenderActor.receiveFrame]
  | send message n =>
      cases connected <;>
        simp [handling, Machine.exec, machine, step, hidle, leftOver,
          ReliableSenderActor.handleConnectionMessage, ReliableSenderActor.receiveFrame]

/-! ## What one step can do -/

/-- The five things a step of the task can be. -/
inductive Stepped (t : SenderTask) (e : Event) (t' : SenderTask) : Prop
  | sent {message : Message} {connected : Bool} (hidle : t.suspended = none)
      (hcmd : e.command = .send message t.opened)
      (heff : e.effects =
        ((t.actor.waitingForAck.lookup (t.actor.sequenceNumber + 1)).map
          fun waiter => Effect.drop waiter.2).toList ++
        [.connectionSend (.send message (t.actor.sequenceNumber + 1)) connected])
      (hwaiting : t'.actor.waitingForAck =
        t.actor.waitingForAck.insert (t.actor.sequenceNumber + 1) (message, t.opened))
      (hnumber : t'.actor.sequenceNumber = t.actor.sequenceNumber + 1)
      (hsuspended : t'.suspended = none) (hopened : t'.opened = t.opened + 1) : Stepped t e t'
  | received {message : Message} {n : UInt64} {connected : Bool} (hidle : t.suspended = none)
      (hcmd : e.command = .network (.send message n))
      (heff : e.effects = [.connectionSend (.ack n) connected]) (hactor : t'.actor = t.actor)
      (hsuspended : t'.suspended = if connected then some message else none)
      (hopened : t'.opened = t.opened) : Stepped t e t'
  | acked {n : UInt64} {message : Message} {tx : Oneshot} (hidle : t.suspended = none)
      (hcmd : e.command = .network (.ack n))
      (hheld : t.actor.waitingForAck.lookup n = some (message, tx))
      (heff : e.effects = [.respond tx (.ok ())])
      (hwaiting : t'.actor.waitingForAck = t.actor.waitingForAck.erase n)
      (hnumber : t'.actor.sequenceNumber = t.actor.sequenceNumber)
      (hsuspended : t'.suspended = none) (hopened : t'.opened = t.opened) : Stepped t e t'
  | ackUnknown {n : UInt64} (hidle : t.suspended = none) (hcmd : e.command = .network (.ack n))
      (hheld : t.actor.waitingForAck.lookup n = none) (heff : e.effects = [])
      (hactor : t'.actor = t.actor) (hsuspended : t'.suspended = none)
      (hopened : t'.opened = t.opened) : Stepped t e t'
  | passedUp {message : Message} {clientOpen : Bool} (hsome : t.suspended = some message)
      (hcmd : e.command = .passUp message) (heff : e.effects = [.clientSend message clientOpen])
      (hactor : t'.actor = t.actor) (hsuspended : t'.suspended = none)
      (hopened : t'.opened = t.opened) : Stepped t e t'

/-- **Every step of the task is one of the five.** -/
theorem stepped_of_step {t t' : SenderTask} {i : Input} {e : Event}
    (hs : machine.step t i = some (t', e)) : Stepped t e t' := by
  cases i with
  | send message connected =>
      cases hidle : t.suspended with
      | some waiting => simp [machine, step, hidle] at hs
      | none =>
          simp only [machine, step, hidle, Option.some.injEq, Prod.mk.injEq] at hs
          obtain ⟨rfl, rfl⟩ := hs
          exact .sent hidle rfl rfl rfl rfl rfl rfl
  | receive frame connected =>
      cases hidle : t.suspended with
      | some waiting => simp [machine, step, hidle] at hs
      | none =>
          simp only [machine, step, hidle, Option.some.injEq, Prod.mk.injEq] at hs
          obtain ⟨rfl, rfl⟩ := hs
          cases frame with
          | send message n =>
              refine .received hidle rfl rfl rfl ?_ rfl
              cases connected <;> rfl
          | ack n =>
              cases hheld : t.actor.waitingForAck.lookup n with
              | none =>
                  refine .ackUnknown hidle rfl hheld ?_ ?_ ?_ rfl <;>
                    simp [ReliableSenderActor.receiveFrame, hheld, leftOver]
              | some waiter =>
                  refine .acked hidle rfl hheld ?_ ?_ ?_ ?_ rfl <;>
                    simp [ReliableSenderActor.receiveFrame, hheld, leftOver]
  | passUp clientOpen =>
      cases hsome : t.suspended with
      | none => simp [machine, step, hsome] at hs
      | some message =>
          simp only [machine, step, hsome, Option.some.injEq, Prod.mk.injEq] at hs
          obtain ⟨rfl, rfl⟩ := hs
          exact .passedUp hsome rfl rfl rfl rfl rfl

end SenderTask

end ReliableSender

end FrostFederation
