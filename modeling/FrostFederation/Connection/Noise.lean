/-
# FrostFederation.Connection.Noise — the Noise handler and the handshake it runs.

The model of `node/noise_handler.rs`.  `NoiseIo` is the trait the connection is written against,
`NoiseHandler` its one implementation.  None of its operations can fail softly: each `unwrap`s what
the library returns, so `none` is a PANIC of the task that calls it.

`run_handshake` works on the two halves of a stream.  The results of its writes are not looked at.
What it reads comes from the peer, which may send frames, fail, close, or fall silent; so a
handshake has three outcomes: it is done, it has panicked, or it waits for ever.
-/
import FrostFederation.Lib.Noise
import FrostFederation.Lib.Serde

namespace FrostFederation.Connection

open FrostFederation.Lib
open FrostFederation.Lib.Noise

/-! ## The handler -/

/-- `trait NoiseIO`, over buffers of type `B`; `none` is a panic.  The payloads of handshake messages
are literals. -/
class NoiseIo (N : Type) (B : outParam Type) where
  new : Bool → String → Option N
  startTransport : N → Option N
  buildHandshakeMessage : N → String → Option (N × B)
  readHandshakeMessage : N → B → Option (N × B)
  buildTransportMessage : N → B → Option (N × B)
  readTransportMessage : N → B → Option (N × B)

/-- What the handler uses: the cryptography of its pattern, and how a key is read from its PEM text. -/
structure Snow (B : Type) extends Suite B where
  fromPkcs8Pem : String → Option Key

structure NoiseHandler {B : Type} (snow : Snow B) where
  handshakeState : Option (HandshakeState snow.toSuite)
  transportState : Option (TransportState snow.toSuite)
  initiator : Bool

namespace NoiseHandler

variable {B : Type} {snow : Snow B}

/-- The pattern is `XX`, which has three messages. -/
def patternMessages : Nat := 3

def new (init : Bool) (pemKey : String) : Option (NoiseHandler snow) :=
  (snow.fromPkcs8Pem pemKey).map fun key =>
    ⟨some (.build snow.toSuite patternMessages init key), none, init⟩

/-- Switch to transport mode and drop the handshake state. -/
def startTransport (noise : NoiseHandler snow) : Option (NoiseHandler snow) := do
  let state ← noise.handshakeState
  let transport ← state.intoTransportMode
  return { noise with handshakeState := none, transportState := some transport }

def buildHandshakeMessage (noise : NoiseHandler snow) (message : String) :
    Option (NoiseHandler snow × B) := do
  let state ← noise.handshakeState
  let (state, bytes) ← state.writeMessage message
  return ({ noise with handshakeState := some state }, bytes)

def readHandshakeMessage (noise : NoiseHandler snow) (msg : B) : Option (NoiseHandler snow × B) := do
  let state ← noise.handshakeState
  let (state, bytes) ← state.readMessage msg
  return ({ noise with handshakeState := some state }, bytes)

def buildTransportMessage (noise : NoiseHandler snow) (message : B) :
    Option (NoiseHandler snow × B) := do
  let state ← noise.transportState
  let (state, bytes) ← state.writeMessage message
  return ({ noise with transportState := some state }, bytes)

def readTransportMessage (noise : NoiseHandler snow) (msg : B) : Option (NoiseHandler snow × B) := do
  let state ← noise.transportState
  let (state, bytes) ← state.readMessage msg
  return ({ noise with transportState := some state }, bytes)

instance : NoiseIo (NoiseHandler snow) B :=
  ⟨new, startTransport, buildHandshakeMessage, readHandshakeMessage, buildTransportMessage,
    readTransportMessage⟩

end NoiseHandler

/-- A stand-in for the cryptography, for runs on fixed inputs: a buffer is a value under the layers
that were put around it, any text is a valid handshake message, and any text but the empty one is a
key. -/
def Snow.transparent : Snow (Serde.Value × List (Bool × Nat)) where
  size bytes := tagLength * bytes.2.length
  Key := Unit
  Secret := Unit
  initial _ _ := ()
  write _ payload := ((), (.str payload, []))
  read _ bytes :=
    match bytes.1 with
    | .str _ => some ((), bytes)
    | _ => none
  encrypt _ role n bytes := (bytes.1, (role, n) :: bytes.2)
  decrypt _ role n bytes :=
    match bytes.2 with
    | [] => none
    | layer :: layers => if layer = (role, n) then some (bytes.1, layers) else none
  size_write _ _ := Nat.zero_le _
  size_encrypt _ _ _ _ := Nat.mul_succ _ _
  decrypt_eq_some := by
    rintro _ role n ⟨value, _ | ⟨layer, layers⟩⟩ ⟨value', layers'⟩
    · simp
    · simp only [Option.ite_none_right_eq_some, Option.some.injEq, Prod.mk.injEq, List.cons.injEq]
      exact and_left_comm
  fromPkcs8Pem pem := if pem = "" then none else some ()

def noSecret : Snow.transparent.Secret := ()

/-- Values in buffers of the stand-in, with no layer around them. -/
def bareValues : Serde.Format (Serde.Value × List (Bool × Nat)) :=
  ⟨fun v => (v, []), fun bytes => .ok bytes.1, fun _ _ => rfl⟩

/-! ## Streams -/

/-- What a framed reader yields: a whole frame, or an error. -/
inductive Item (B : Type) where
  | frame (bytes : B)
  | error

/-- What happens after the last item: the peer closes, or nothing more ever comes. -/
inductive Ending where
  | closed
  | silent
  deriving DecidableEq

/-- Everything a peer will ever send on a stream. -/
structure Reader (B : Type) where
  items : List (Item B)
  ending : Ending

/-- How a piece of sequential code ends. -/
inductive Outcome (α : Type) where
  | done (value : α)
  | panicked
  | waiting

namespace Outcome

variable {α β : Type}

def bind : Outcome α → (α → Outcome β) → Outcome β
  | done a, f => f a
  | panicked, _ => panicked
  | waiting, _ => waiting

instance : Monad Outcome where
  pure := done
  bind := bind

/-- `unwrap`. -/
def unwrap : Option α → Outcome α
  | some a => done a
  | none => panicked

@[simp]
theorem pure_eq (a : α) : (pure a : Outcome α) = done a :=
  rfl

@[simp]
theorem done_bind (a : α) (f : α → Outcome β) : (done a >>= f) = f a :=
  rfl

@[simp]
theorem panicked_bind (f : α → Outcome β) : (panicked >>= f) = panicked :=
  rfl

@[simp]
theorem waiting_bind (f : α → Outcome β) : (waiting >>= f) = waiting :=
  rfl

@[simp]
theorem unwrap_some (a : α) : unwrap (some a) = done a :=
  rfl

@[simp]
theorem unwrap_none : unwrap (none : Option α) = panicked :=
  rfl

/-- A sequence of two pieces is done exactly when both are. -/
theorem exists_bind_eq_done {x : Outcome α} {f : α → Outcome β} :
    (∃ b, (x >>= f) = done b) ↔ ∃ a, x = done a ∧ ∃ b, f a = done b := by
  cases x <;> simp

end Outcome

variable {B : Type}

/-- `reader.next().await.unwrap().unwrap().freeze()`: the end of the stream and an error panic. -/
def Reader.nextFrame (reader : Reader B) : Outcome (B × Reader B) :=
  match reader.items, reader.ending with
  | .frame bytes :: rest, _ => .done (bytes, { reader with items := rest })
  | .error :: _, _ => .panicked
  | [], .closed => .panicked
  | [], .silent => .waiting

/-! ## The handshake -/

section Handshake

variable {N : Type} [NoiseIo N B]

/-- `initiator_handshake`, with the frames it writes. -/
def initiatorHandshake (noise : N) (reader : Reader B) : Outcome (N × Reader B × List B) := do
  let (noise, m1) ← .unwrap (NoiseIo.buildHandshakeMessage noise "1")
  let (m2, reader) ← reader.nextFrame
  let (noise, _) ← .unwrap (NoiseIo.readHandshakeMessage noise m2)
  let (noise, m3) ← .unwrap (NoiseIo.buildHandshakeMessage noise "-> s, se")
  return (noise, reader, [m1, m3])

/-- `responder_handshake`, with the frame it writes. -/
def responderHandshake (noise : N) (reader : Reader B) : Outcome (N × Reader B × List B) := do
  let (m1, reader) ← reader.nextFrame
  let (noise, _) ← .unwrap (NoiseIo.readHandshakeMessage noise m1)
  let (noise, m2) ← .unwrap (NoiseIo.buildHandshakeMessage noise "<- e, ee, s, es")
  let (m3, reader) ← reader.nextFrame
  let (noise, _) ← .unwrap (NoiseIo.readHandshakeMessage noise m3)
  return (noise, reader, [m2])

def runHandshake (noise : N) (initiator : Bool) (reader : Reader B) :
    Outcome (N × Reader B × List B) := do
  let (noise, reader, written) ←
    if initiator then initiatorHandshake noise reader else responderHandshake noise reader
  let noise ← .unwrap (NoiseIo.startTransport noise)
  return (noise, reader, written)

end Handshake

/-! ## What an initiator needs of its peer -/

namespace NoiseHandler

variable {snow : Snow B}

/-- A handler in its handshake, with `remaining` messages to go. -/
def handshaking (initiator : Bool) (secret : snow.Secret) (myTurn : Bool) (remaining : Nat) :
    NoiseHandler snow :=
  ⟨some ⟨secret, initiator, myTurn, remaining⟩, none, initiator⟩

/-- A handler in transport mode. -/
def transporting (initiator : Bool) (secret : snow.Secret) (sending receiving : Nat) :
    NoiseHandler snow :=
  ⟨none, some ⟨secret, initiator, sending, receiving⟩, initiator⟩

theorem new_eq (init : Bool) (pemKey : String) :
    (NoiseIo.new init pemKey : Option (NoiseHandler snow)) =
      (snow.fromPkcs8Pem pemKey).map fun key =>
        handshaking init (snow.initial init key) init patternMessages :=
  rfl

theorem buildHandshakeMessage_handshaking (initiator : Bool) (secret : snow.Secret) (n : Nat)
    (payload : String)
    (hshort : payload.utf8ByteSize + handshakeOverhead ≤ maxMessageLength) :
    NoiseIo.buildHandshakeMessage (handshaking initiator secret true (n + 1)) payload =
      some (handshaking initiator (snow.write secret payload).1 false n,
        (snow.write secret payload).2) := by
  show buildHandshakeMessage _ _ = _
  simp [buildHandshakeMessage, handshaking, HandshakeState.writeMessage_eq _ _ _ hshort]

theorem readHandshakeMessage_handshaking (initiator : Bool) (secret : snow.Secret) (n : Nat)
    (msg : B) :
    NoiseIo.readHandshakeMessage (handshaking initiator secret false (n + 1)) msg =
      if maxMessageLength < snow.size msg then none
      else (snow.read secret msg).map fun r => (handshaking initiator r.1 true n, r.2) := by
  show readHandshakeMessage _ _ = _
  simp only [readHandshakeMessage, handshaking, Option.bind_eq_bind, Option.bind_some,
    HandshakeState.readMessage_eq]
  split
  · rfl
  · cases snow.read secret msg <;> rfl

theorem startTransport_handshaking (initiator : Bool) (secret : snow.Secret) (myTurn : Bool) :
    NoiseIo.startTransport (handshaking initiator secret myTurn 0) =
      some (transporting initiator secret 0 0) :=
  rfl

/-- The counters of a handler; they count from the start of its transport mode. -/
def sending (noise : NoiseHandler snow) : Nat :=
  match noise.transportState with
  | some state => state.sending
  | none => 0

def receiving (noise : NoiseHandler snow) : Nat :=
  match noise.transportState with
  | some state => state.receiving
  | none => 0

theorem buildTransportMessage_transporting {initiator : Bool} {secret : snow.Secret} {n k : Nat}
    {message data : B} {noise : NoiseHandler snow} :
    NoiseIo.buildTransportMessage (transporting initiator secret n k) message =
        some (noise, data) ↔
      snow.size message + tagLength ≤ maxMessageLength ∧
        noise = transporting initiator secret (n + 1) k ∧
        data = snow.encrypt secret initiator n message := by
  show buildTransportMessage _ _ = _ ↔ _
  simp only [buildTransportMessage, transporting, Option.bind_eq_bind, Option.bind_some,
    Option.bind_eq_some_iff, Prod.exists, TransportState.writeMessage_eq_some, Option.pure_def,
    Option.some.injEq, Prod.mk.injEq]
  constructor
  · rintro ⟨state, bytes, ⟨hfits, rfl, rfl⟩, rfl, rfl⟩
    exact ⟨hfits, rfl, rfl⟩
  · rintro ⟨hfits, rfl, rfl⟩
    exact ⟨_, _, ⟨hfits, rfl, rfl⟩, rfl, rfl⟩

/-- A message that is read advances the receiving counter and nothing else. -/
theorem eq_of_readTransportMessage {initiator : Bool} {secret : snow.Secret} {n k : Nat}
    {msg message : B} {noise : NoiseHandler snow}
    (h : NoiseIo.readTransportMessage (transporting initiator secret n k) msg =
      some (noise, message)) : noise = transporting initiator secret n (k + 1) := by
  change readTransportMessage _ _ = _ at h
  simp only [readTransportMessage, transporting, TransportState.readMessage, Option.bind_eq_bind,
    Option.bind_some, Option.bind_eq_some_iff, Option.ite_none_left_eq_some,
    Option.map_eq_some_iff, Option.pure_def, Option.some.injEq, Prod.mk.injEq] at h
  obtain ⟨r, ⟨-, payload, -, rfl⟩, rfl, -⟩ := h
  rfl

/-- What the other role encrypted at the counter value of the reader is read. -/
theorem readTransportMessage_transporting {initiator : Bool} {secret : snow.Secret} {n k : Nat}
    {message : B} (hfits : snow.size message + tagLength ≤ maxMessageLength) :
    NoiseIo.readTransportMessage (transporting initiator secret n k)
        (snow.encrypt secret (!initiator) k message) =
      some (transporting initiator secret n (k + 1), message) := by
  have hread := TransportState.readMessage_encrypt (t := ⟨secret, initiator, n, k⟩) hfits
  show readTransportMessage _ _ = _
  simp only [readTransportMessage, transporting, Option.bind_eq_bind, Option.bind_some, hread,
    Option.pure_def]

end NoiseHandler

section Initiator

variable {snow : Snow B}

/-- The secrets of an initiator that has written its first message. -/
def afterFirst (key : snow.Key) : snow.Secret := (snow.write (snow.initial true key) "1").1

/-- The first thing the peer sends is a frame that is valid as the second handshake message. -/
def Reader.Answers (key : snow.Key) (reader : Reader B) : Prop :=
  ∃ m2 rest, reader.items = .frame m2 :: rest ∧ snow.size m2 ≤ maxMessageLength ∧
    (snow.read (afterFirst key) m2).isSome

/-- Around the second message the initiator only writes, which cannot go wrong. -/
theorem runHandshake_initiator (key : snow.Key) (reader : Reader B) :
    runHandshake (NoiseHandler.handshaking true (snow.initial true key) true 3) true reader =
      reader.nextFrame >>= fun r =>
        if maxMessageLength < snow.size r.1 then .panicked
        else .unwrap (snow.read (afterFirst key) r.1) >>= fun read =>
          .done (NoiseHandler.transporting true (snow.write read.1 "-> s, se").1 0 0, r.2,
            [(snow.write (snow.initial true key) "1").2, (snow.write read.1 "-> s, se").2]) := by
  have hfirst := NoiseHandler.buildHandshakeMessage_handshaking true (snow.initial true key) 2 "1"
    (by decide)
  simp only [runHandshake, initiatorHandshake, if_true, hfirst, Outcome.unwrap_some,
    Outcome.done_bind]
  cases reader.nextFrame with
  | panicked => rfl
  | waiting => rfl
  | done r =>
      simp only [Outcome.done_bind, NoiseHandler.readHandshakeMessage_handshaking, afterFirst]
      split
      · rfl
      · cases snow.read (snow.write (snow.initial true key) "1").1 r.1 with
        | none => rfl
        | some read =>
            have hthird := NoiseHandler.buildHandshakeMessage_handshaking true read.1 0 "-> s, se"
              (by decide)
            simp only [Option.map_some, Outcome.unwrap_some, Outcome.done_bind, Outcome.pure_eq,
              hthird, NoiseHandler.startTransport_handshaking]

/-- **The handshake of an initiator completes exactly when its peer answers.** -/
theorem runHandshake_initiator_done_iff (key : snow.Key) (reader : Reader B) :
    (∃ r, runHandshake (NoiseHandler.handshaking true (snow.initial true key) true 3) true reader =
      .done r) ↔ reader.Answers key := by
  rw [runHandshake_initiator]
  obtain ⟨items, ending⟩ := reader
  cases items with
  | nil => cases ending <;> simp [Reader.nextFrame, Reader.Answers]
  | cons item rest =>
      cases item with
      | error => simp [Reader.nextFrame, Reader.Answers]
      | frame m2 =>
          simp only [Reader.nextFrame, Reader.Answers, Outcome.done_bind]
          by_cases hlong : maxMessageLength < snow.size m2
          · simp [hlong]
          · cases hread : snow.read (afterFirst key) m2 <;>
              simp [hlong, hread, Nat.le_of_not_lt hlong]

end Initiator

end FrostFederation.Connection
