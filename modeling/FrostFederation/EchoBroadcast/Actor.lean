/-
# FrostFederation.EchoBroadcast.Actor — the echo broadcast actor and the task that runs it.

The model of `node/echo_broadcast/mod.rs`, function by function.  The actor owns three maps, all
keyed by message id: who has echoed, whom the message was sent to, and the oneshot sender of the
client that waits for the broadcast to finish.  Two things a run depends on are made explicit:

* WHICH reliable sends succeed is an input of the step (`reach`), one answer per member, and the
  order in which the member map is iterated is the order of its entries, so a statement over all
  inputs and all member maps ranges over every failure pattern and every iteration order;
* an `unwrap` on `None` is a `none` result.  It unwinds the task that owns the actor, and with it
  every oneshot sender the actor holds.

A oneshot channel is a number.  `EchoBroadcastHandle::send` opens a new one for every call, so the
task counts the channels opened so far and a command never reuses one.
-/
import FrostFederation.ReliableSender.Actor

namespace FrostFederation.EchoBroadcast

open FrostFederation.Lib
open FrostFederation.Protocol

/-! ## State, commands, effects -/

/-- The members of a broadcast with their reliable sender handles. -/
abbrev ReliableSenderMap (H : Type) := HashMap String H

/-- Message id, then party, then whether its echo has been received. -/
abbrev EchosMap := HashMap MessageId (HashMap String Bool)

inductive EchoBroadcastMessage (H : Type) where
  | send (data : Message) (members : ReliableSenderMap H) (respondTo : Oneshot)
  | echo (data : Message)

/-- The command carries a message id and, if it is a Send, names at least one member. -/
def EchoBroadcastMessage.wellIdentified {H : Type} : EchoBroadcastMessage H → Bool
  | .send data members _ => data.getMessageId.isSome && !members.keys.isEmpty
  | .echo data => data.getMessageId.isSome

structure EchoBroadcastActor (H : Type) where
  reliableSenders : HashMap MessageId (ReliableSenderMap H)
  messageEchos : EchosMap
  messageClientTxs : HashMap MessageId Oneshot

/-- What a handler does to the world outside the actor. -/
inductive Effect (H : Type) where
  | reliableSend (member : String) (handle : H) (data : Message) (ok : Bool)
  | respond (tx : Oneshot) (result : ConnectionResult)
  /-- The sender half is dropped unanswered; the client's `await` yields an error. -/
  | drop (tx : Oneshot)
  deriving DecidableEq

namespace EchoBroadcastActor

variable {H : Type}

/-- `EchoBroadcastActor::start`. -/
def start : EchoBroadcastActor H := ⟨∅, ∅, ∅⟩

/-- What is recorded about the echo of party `x` to message `m`. -/
def echo (actor : EchoBroadcastActor H) (m : MessageId) (x : String) : Option Bool :=
  HashMap.lookup₂ actor.messageEchos m x

/-! ## Handlers -/

/-- The loop body of `send_message` after a reliable send: the member's echo is awaited, unless it
is already on record. -/
def expectEcho (echos : EchosMap) (messageId : MessageId) (member : String) : EchosMap :=
  HashMap.upsert echos messageId fun received => HashMap.orInsert received member false

/-- The loop of `send_message`.  The flag says that it ran to its end: the first reliable send that
fails returns from the middle, with the echos of the members before it already awaited. -/
def sendToMembers (reach : String → Bool) (data : Message) (messageId : MessageId) :
    List ((_ : String) × H) → EchosMap → EchosMap × List (Effect H) × Bool
  | [], echos => (echos, [], true)
  | ⟨member, reliableSender⟩ :: rest, echos =>
      if reach member then
        let r := sendToMembers reach data messageId rest (expectEcho echos messageId member)
        (r.1, .reliableSend member reliableSender data true :: r.2.1, r.2.2)
      else
        (echos, [.reliableSend member reliableSender data false], false)

/-- The rest of `send_message` after the loop.  The sender's own echo is recorded in the entry the
loop created; there is none to record it in when the member map was empty and the id is new. -/
def completeSend (actor : EchoBroadcastActor H) (data : Message) (messageId : MessageId)
    (members : ReliableSenderMap H) (respondTo : Oneshot) :
    Option (EchoBroadcastActor H × List (Effect H)) :=
  match actor.messageEchos.lookup messageId with
  | none => none
  | some received =>
      some
        ({ reliableSenders := actor.reliableSenders.insert messageId members
           messageEchos :=
             actor.messageEchos.insert messageId (received.insert data.getSenderId true)
           messageClientTxs := actor.messageClientTxs.insert messageId respondTo },
         -- `insert` returns the sender it replaces, which is dropped on the spot
         ((actor.messageClientTxs.lookup messageId).map Effect.drop).toList)

def sendMessage (actor : EchoBroadcastActor H) (reach : String → Bool) (data : Message)
    (members : ReliableSenderMap H) (respondTo : Oneshot) :
    Option (EchoBroadcastActor H × List (Effect H) × ConnectionResult) :=
  match data.getMessageId with
  | none => none
  | some messageId =>
      match sendToMembers reach data messageId members.entries actor.messageEchos with
      | (echos, sent, false) =>
          some ({ actor with messageEchos := echos },
            sent ++ [.respond respondTo (.error "Error sending using reliable sender")],
            .error "Error sending message using reliable sender")
      | (echos, sent, true) =>
          match completeSend { actor with messageEchos := echos } data messageId members
              respondTo with
          | none => none
          | some (actor', dropped) => some (actor', sent ++ dropped, .ok ())

/-- Have echos been received from everyone the entry of this id names? -/
def echoReceivedForAll (actor : EchoBroadcastActor H) (messageId : MessageId) : Option Bool :=
  (actor.messageEchos.lookup messageId).map fun received => HashMap.allValues received id

/-- Record the echo of `senderId`, creating the entry of the id if this echo comes first. -/
def addEcho (actor : EchoBroadcastActor H) (messageId : MessageId) (senderId : String) :
    EchoBroadcastActor H :=
  match actor.messageEchos.lookup messageId with
  | some echos =>
      { actor with
        messageEchos := actor.messageEchos.insert messageId (echos.insert senderId true) }
  | none =>
      { actor with
        messageEchos := actor.messageEchos.insert messageId
          ((∅ : HashMap String Bool).insert senderId true) }

def handleReceivedEcho (actor : EchoBroadcastActor H) (data : Message) :
    Option (EchoBroadcastActor H × List (Effect H)) :=
  match data.getMessageId with
  | none => none
  | some messageId =>
      let actor := actor.addEcho messageId data.getSenderId
      match actor.echoReceivedForAll messageId with
      | none => none
      | some false => some (actor, [])
      | some true =>
          some ({ actor with messageClientTxs := actor.messageClientTxs.erase messageId },
            match actor.messageClientTxs.lookup messageId with
            | some respondTo => [.respond respondTo (.ok ())]
            | none => [])

/-- `handle_message`; the result of `send_message` is discarded there and kept here for the
record. -/
def handleMessage (actor : EchoBroadcastActor H) (reach : String → Bool) :
    EchoBroadcastMessage H → Option (EchoBroadcastActor H × List (Effect H) × ConnectionResult)
  | .send data members respondTo => actor.sendMessage reach data members respondTo
  | .echo data => (actor.handleReceivedEcho data).map fun r => (r.1, r.2, .ok ())

end EchoBroadcastActor

/-! ## The task -/

variable {H : Type}

/-- How a command ended. -/
inductive Outcome where
  | returned (result : ConnectionResult)
  | panicked
  /-- The task is gone and its channel closed: the command never reached an actor. -/
  | refused

/-- The task `EchoBroadcastHandle::start` spawns: the actor until it panics, and the number of
oneshot channels the handle has opened. -/
structure EchoTask (H : Type) where
  actor : Option (EchoBroadcastActor H)
  opened : Nat

/-- A call on the handle, with the answers of the reliable sends it leads to. -/
inductive Call (H : Type) where
  | send (data : Message) (members : ReliableSenderMap H) (reach : String → Bool)
  | echo (data : Message)

namespace Call

/-- The command a call posts; a `send` puts the sender half of the channel `tx` it opens into it. -/
def command (tx : Oneshot) : Call H → EchoBroadcastMessage H
  | send data members _ => .send data members tx
  | echo data => .echo data

/-- The answers of the reliable sends; an echo makes none. -/
def reach : Call H → String → Bool
  | send _ _ reach => reach
  | echo _ => fun _ => true

/-- The number of channels the handle has opened after the call. -/
def openedAfter (opened : Nat) : Call H → Nat
  | send _ _ _ => opened + 1
  | echo _ => opened

end Call

/-- One processed command, with the answers its reliable sends were given. -/
structure Event (H : Type) where
  command : EchoBroadcastMessage H
  reach : String → Bool
  outcome : Outcome
  effects : List (Effect H)

namespace EchoTask

def start : EchoTask H := ⟨some .start, 0⟩

/-- The oneshot sender inside a command. -/
def respondTo : EchoBroadcastMessage H → List Oneshot
  | .send _ _ tx => [tx]
  | .echo _ => []

/-- Process one command.  A panic unwinds the task: the command's sender and every stored one are
dropped.  A command that finds no task is dropped with its sender. -/
def process (actor : Option (EchoBroadcastActor H)) (reach : String → Bool)
    (command : EchoBroadcastMessage H) : Option (EchoBroadcastActor H) × Event H :=
  match actor with
  | none => (none, ⟨command, reach, .refused, (respondTo command).map .drop⟩)
  | some a =>
      match a.handleMessage reach command with
      | none =>
          (none, ⟨command, reach, .panicked,
            (respondTo command ++ a.messageClientTxs.entries.map Sigma.snd).map .drop⟩)
      | some (a', effects, result) => (some a', ⟨command, reach, .returned result, effects⟩)

/-- One call on the handle, processed by the task. -/
def step (t : EchoTask H) (c : Call H) : EchoTask H × Event H :=
  let r := process t.actor c.reach (c.command t.opened)
  (⟨r.1, c.openedAfter t.opened⟩, r.2)

/-- The task as a machine: every call is enabled in every state. -/
def machine (H : Type) : Machine (EchoTask H) (Call H) (Event H) := ⟨fun t c => some (t.step c)⟩

/-- The task after a list of calls, and their events. -/
def runCalls (t : EchoTask H) : List (Call H) → EchoTask H × List (Event H)
  | [] => (t, [])
  | c :: cs =>
      let r := t.step c
      let rest := runCalls r.1 cs
      (rest.1, r.2 :: rest.2)

theorem run_runCalls (t : EchoTask H) (calls : List (Call H)) :
    (machine H).Run t (runCalls t calls).2 (runCalls t calls).1 := by
  induction calls generalizing t with
  | nil => exact .nil
  | cons c cs ih =>
      have hstep : (machine H).step t c = some (t.step c) := rfl
      exact (Machine.RunWith.single hstep trivial).append (ih (t.step c).1)

end EchoTask

end FrostFederation.EchoBroadcast
