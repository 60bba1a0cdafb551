/-
# FrostFederation.Connection.Actor — the connection actor and the task that runs it.

The model of `node/connection.rs`.  The actor encrypts and writes what it takes from its command
channel, and decrypts, decodes and forwards to its subscriber what it reads from the peer.  The
socket, the peer and the subscriber are inputs: whether a write succeeds, what the framed reader
yields, and whether the subscriber still listens.

`handle_received` awaits once, for room in the subscriber channel.  While it does, the task takes
nothing from either branch of its `select!`, so a message that has been read and not yet forwarded
is a PHASE of the task.  The task ends in one of two ways: it returns, or an `unwrap` panics.  (The
`else` branch of the `select!` is never taken: its second branch accepts whatever the reader yields.)
-/
import FrostFederation.Connection.Noise
import FrostFederation.Lib.Run
import FrostFederation.ReliableSender.Wire

namespace FrostFederation.Connection

open FrostFederation.Lib
open FrostFederation.Lib.Serde (Format)
open FrostFederation.ReliableSender (ReliableNetworkMessage)

/-! ## State and effects -/

inductive ConnectionMessage where
  | send (data : ReliableNetworkMessage) (respondTo : Oneshot)

/-- Where `run_connection_actor` stands. -/
inductive Phase where
  | selecting
  | forwarding (message : ReliableNetworkMessage)
  | returned
  | panicked
  deriving DecidableEq

/-- The task still takes steps. -/
def Phase.Live : Phase → Prop
  | .selecting => True
  | .forwarding _ => True
  | .returned => False
  | .panicked => False

@[simp]
theorem Phase.live_selecting : Phase.selecting.Live := trivial

@[simp]
theorem Phase.live_forwarding (message : ReliableNetworkMessage) : (forwarding message).Live :=
  trivial

@[simp]
theorem Phase.not_live_returned : ¬Phase.returned.Live := id

@[simp]
theorem Phase.not_live_panicked : ¬Phase.panicked.Live := id

structure ConnectionTask (N : Type) where
  noise : N
  phase : Phase

/-- What the task does to the world outside it.  A call of `read_transport_message` is shown with
its success. -/
inductive Effect (B : Type) where
  | write (frame : B) (ok : Bool)
  | read (frame : B) (ok : Bool)
  /-- The sender of a command is answered `Ok(())`. -/
  | respond (tx : Oneshot)
  | drop (tx : Oneshot)
  | deliver (message : ReliableNetworkMessage)

/-- How a handler ends. -/
inductive Handled (N : Type) where
  | ok (noise : N)
  | error (noise : N) (text : String)
  | panicked

/-! ## Handlers -/

section Handlers

variable {N B : Type} [NoiseIo N B] (flexbuffers : Format B)

/-- `handle_send`.  Its only answer to the sender is `Ok(())`; every other way out drops the oneshot. -/
def handleSend (noise : N) (msg : ReliableNetworkMessage) (respondTo : Oneshot) (written : Bool) :
    Handled N × List (Effect B) :=
  match msg.asBytes flexbuffers with
  | none => (.panicked, [.drop respondTo])
  | some none => (.error noise "Error serializing message", [.drop respondTo])
  | some (some networkMessage) =>
      match NoiseIo.buildTransportMessage noise networkMessage with
      | none => (.panicked, [.drop respondTo])
      | some (noise, data) =>
          if written then (.ok noise, [.write data true, .respond respondTo])
          else
            (.error noise "Error writing to socket stream",
              [.write data false, .drop respondTo])

def handleMessage (noise : N) (msg : ConnectionMessage) (written : Bool) :
    Handled N × List (Effect B) :=
  match msg with
  | .send data respondTo => handleSend flexbuffers noise data respondTo written

/-- `handle_received` up to its await: `none` is a panic of the decryption, an error is returned. -/
def handleReceived (noise : N) (message : B) :
    Option (N × Except Serde.Error ReliableNetworkMessage) := do
  let (noise, decryptedMessage) ← NoiseIo.readTransportMessage noise message
  return (noise, ReliableNetworkMessage.fromBytes flexbuffers decryptedMessage)

end Handlers

/-! ## The task -/

/-- One step of the task: a command from the handle with the result of the write, an item from the
reader (`none` at its end), or the end of the wait for the subscriber. -/
inductive Input (B : Type) where
  | command (message : ConnectionMessage) (written : Bool)
  | next (item : Option (Item B))
  | forward (subscribed : Bool)

structure Event (B : Type) where
  input : Input B
  effects : List (Effect B)

namespace ConnectionTask

variable {N B : Type} [NoiseIo N B]

/-- `ConnectionActor::start`, with the frames the handshake writes. -/
def start (noise : N) (init : Bool) (reader : Reader B) :
    Outcome (ConnectionTask N × Reader B × List B) := do
  let (noise, reader, written) ← runHandshake noise init reader
  return (⟨noise, .selecting⟩, reader, written)

variable (flexbuffers : Format B)

/-- What the loop does with the result of a command. -/
def handled (t : ConnectionTask N) : Handled N → ConnectionTask N
  | .ok noise => ⟨noise, .selecting⟩
  | .error noise _ => ⟨noise, .returned⟩
  | .panicked => { t with phase := .panicked }

/-- The body of the loop of `run_connection_actor`. -/
def step (t : ConnectionTask N) (input : Input B) : Option (ConnectionTask N × Event B) :=
  match t.phase, input with
  | .selecting, .command message written =>
      let r := handleMessage flexbuffers t.noise message written
      some (t.handled r.1, ⟨input, r.2⟩)
  | .selecting, .next (some (.frame bytes)) =>
      match handleReceived flexbuffers t.noise bytes with
      | none => some ({ t with phase := .panicked }, ⟨input, [.read bytes false]⟩)
      -- `handle_received(..).await.unwrap()`
      | some (noise, .error _) => some (⟨noise, .panicked⟩, ⟨input, [.read bytes true]⟩)
      | some (noise, .ok message) =>
          some (⟨noise, .forwarding message⟩, ⟨input, [.read bytes true]⟩)
  | .selecting, .next (some .error) => some ({ t with phase := .returned }, ⟨input, []⟩)
  | .selecting, .next none => some ({ t with phase := .returned }, ⟨input, []⟩)
  | .forwarding message, .forward true =>
      some ({ t with phase := .selecting }, ⟨input, [.deliver message]⟩)
  | .forwarding _, .forward false => some ({ t with phase := .panicked }, ⟨input, []⟩)
  | _, _ => none

def machine : Machine (ConnectionTask N) (Input B) (Event B) := ⟨step flexbuffers⟩

/-! ## What one step can do -/

/-- The nine things a step of the task can be. -/
inductive Stepped (t : ConnectionTask N) (e : Event B) (t' : ConnectionTask N) : Prop
  | wrote {data : ReliableNetworkMessage} {tx : Oneshot} {bytes frame : B} {noise : N}
      (hphase : t.phase = .selecting) (hinput : e.input = .command (.send data tx) true)
      (hbytes : data.asBytes flexbuffers = some (some bytes))
      (hbuild : NoiseIo.buildTransportMessage t.noise bytes = some (noise, frame))
      (heff : e.effects = [.write frame true, .respond tx]) (ht' : t' = ⟨noise, .selecting⟩) :
      Stepped t e t'
  | writeFailed {data : ReliableNetworkMessage} {tx : Oneshot} {bytes frame : B} {noise : N}
      (hphase : t.phase = .selecting) (hinput : e.input = .command (.send data tx) false)
      (hbytes : data.asBytes flexbuffers = some (some bytes))
      (hbuild : NoiseIo.buildTransportMessage t.noise bytes = some (noise, frame))
      (heff : e.effects = [.write frame false, .drop tx]) (ht' : t' = ⟨noise, .returned⟩) :
      Stepped t e t'
  | unwritten {data : ReliableNetworkMessage} {tx : Oneshot} {written : Bool}
      (hphase : t.phase = .selecting) (hinput : e.input = .command (.send data tx) written)
      (heff : e.effects = [.drop tx]) (hdead : ¬t'.phase.Live) : Stepped t e t'
  | read {bytes plain : B} {message : ReliableNetworkMessage} {noise : N}
      (hphase : t.phase = .selecting) (hinput : e.input = .next (some (.frame bytes)))
      (hread : NoiseIo.readTransportMessage t.noise bytes = some (noise, plain))
      (hdecode : ReliableNetworkMessage.fromBytes flexbuffers plain = .ok message)
      (heff : e.effects = [.read bytes true]) (ht' : t' = ⟨noise, .forwarding message⟩) :
      Stepped t e t'
  | undecodable {bytes plain : B} {error : Serde.Error} {noise : N}
      (hphase : t.phase = .selecting) (hinput : e.input = .next (some (.frame bytes)))
      (hread : NoiseIo.readTransportMessage t.noise bytes = some (noise, plain))
      (hdecode : ReliableNetworkMessage.fromBytes flexbuffers plain = .error error)
      (heff : e.effects = [.read bytes true]) (ht' : t' = ⟨noise, .panicked⟩) : Stepped t e t'
  | unreadable {bytes : B} (hphase : t.phase = .selecting)
      (hinput : e.input = .next (some (.frame bytes)))
      (hread : NoiseIo.readTransportMessage t.noise bytes = none)
      (heff : e.effects = [.read bytes false]) (ht' : t' = { t with phase := .panicked }) :
      Stepped t e t'
  | ended {item : Option (Item B)} (hphase : t.phase = .selecting)
      (hinput : e.input = .next item) (hitem : ∀ bytes, item ≠ some (.frame bytes))
      (heff : e.effects = []) (ht' : t' = { t with phase := .returned }) : Stepped t e t'
  | forwarded {message : ReliableNetworkMessage} (hphase : t.phase = .forwarding message)
      (hinput : e.input = .forward true) (heff : e.effects = [.deliver message])
      (ht' : t' = { t with phase := .selecting }) : Stepped t e t'
  | unsubscribed {message : ReliableNetworkMessage} (hphase : t.phase = .forwarding message)
      (hinput : e.input = .forward false) (heff : e.effects = [])
      (ht' : t' = { t with phase := .panicked }) : Stepped t e t'

variable {flexbuffers}

/-- A command is written, written in vain, or not written at all. -/
theorem stepped_command {t : ConnectionTask N} (hphase : t.phase = .selecting)
    (data : ReliableNetworkMessage) (tx : Oneshot) (written : Bool) :
    Stepped flexbuffers t
      ⟨.command (.send data tx) written, (handleSend flexbuffers t.noise data tx written).2⟩
      (t.handled (handleSend flexbuffers t.noise data tx written).1) := by
  unfold handleSend
  cases hbytes : data.asBytes flexbuffers with
  | none => exact .unwritten hphase rfl rfl id
  | some bytes? =>
      cases bytes? with
      | none => exact .unwritten hphase rfl rfl id
      | some bytes =>
          cases hbuild : NoiseIo.buildTransportMessage t.noise bytes with
          | none =>
              simp only [hbuild]
              exact .unwritten hphase rfl rfl id
          | some built =>
              simp only [hbuild]
              cases written with
              | true => exact .wrote hphase rfl hbytes hbuild rfl rfl
              | false => exact .writeFailed hphase rfl hbytes hbuild rfl rfl

/-- **Every step of the task is one of the nine.** -/
theorem stepped_of_step {t t' : ConnectionTask N} {i : Input B} {e : Event B}
    (hs : (machine flexbuffers).step t i = some (t', e)) : Stepped flexbuffers t e t' := by
  simp only [machine, step] at hs
  split at hs
  · next message written hphase =>
      cases message
      cases hs
      exact stepped_command hphase _ _ _
  · next bytes hphase =>
      cases hread : NoiseIo.readTransportMessage t.noise bytes with
      | none =>
          simp only [handleReceived, hread, Option.bind_eq_bind, Option.bind_none] at hs
          cases hs
          exact .unreadable hphase rfl hread rfl rfl
      | some r =>
          simp only [handleReceived, hread, Option.bind_eq_bind, Option.bind_some,
            Option.pure_def] at hs
          cases hdecode : ReliableNetworkMessage.fromBytes flexbuffers r.2 with
          | error error =>
              simp only [hdecode] at hs
              cases hs
              exact .undecodable hphase rfl hread hdecode rfl rfl
          | ok message =>
              simp only [hdecode] at hs
              cases hs
              exact .read hphase rfl hread hdecode rfl rfl
  · next hphase =>
      cases hs
      exact .ended hphase rfl (by simp) rfl rfl
  · next hphase =>
      cases hs
      exact .ended hphase rfl (by simp) rfl rfl
  · next message hphase =>
      cases hs
      exact .forwarded hphase rfl rfl rfl
  · next message hphase =>
      cases hs
      exact .unsubscribed hphase rfl rfl rfl
  · cases hs

/-- The event of a step shows its input. -/
theorem input_of_step {t t' : ConnectionTask N} {i : Input B} {e : Event B}
    (hs : (machine flexbuffers).step t i = some (t', e)) : e.input = i := by
  simp only [machine, step] at hs
  split at hs
  case h_2 => split at hs <;> cases hs <;> rfl
  case h_7 => cases hs
  all_goals
    cases hs
    rfl

end ConnectionTask

end FrostFederation.Connection
