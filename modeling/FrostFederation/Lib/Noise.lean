/-
# FrostFederation.Lib.Noise — the two states of a Noise session.

A session first runs a HANDSHAKE, in which the two roles take turns for a fixed number of messages,
and then a TRANSPORT, in which each direction is an authenticated cipher under a counter nonce.
The cryptography is a parameter: a `Suite` says how long messages are, what a handshake message does
to the secrets, and that a transport message opens exactly where it was encrypted, under the same
secret, in the same direction and at the same counter value.  Every operation may refuse; `none` is
the error of the library.
-/
import Mathlib.Init

namespace FrostFederation.Lib.Noise

universe u

/-- The longest Noise message. -/
def maxMessageLength : Nat := 65535

/-- The length of an authentication tag. -/
def tagLength : Nat := 16

/-- What a handshake message adds to its payload at most: two public keys and two tags. -/
def handshakeOverhead : Nat := 96

/-- The cryptography of one Noise protocol, over buffers of type `B`.  A direction is named by the
role of its writer: `true` is the initiator. -/
structure Suite (B : Type u) where
  size : B → Nat
  Key : Type
  Secret : Type
  initial : Bool → Key → Secret
  write : Secret → String → Secret × B
  read : Secret → B → Option (Secret × B)
  encrypt : Secret → Bool → Nat → B → B
  decrypt : Secret → Bool → Nat → B → Option B
  size_write : ∀ s payload, size (write s payload).2 ≤ payload.utf8ByteSize + handshakeOverhead
  size_encrypt : ∀ s role n p, size (encrypt s role n p) = size p + tagLength
  decrypt_eq_some : ∀ s role n c p, decrypt s role n c = some p ↔ c = encrypt s role n p

variable {B : Type u} {S : Suite B}

/-- **The two ends of an undisturbed handshake agree.**  `Paired n w r` says that the end that writes
the next message has the secrets `w`, the end that reads it has `r`, and `n` messages are left.  The
cryptography is correct if each message that is written can be read, after which the roles change,
and if both ends have the same secrets when no message is left. -/
structure Agreement (S : Suite B) (messages : Nat) where
  Paired : Nat → S.Secret → S.Secret → Prop
  initial : ∀ key key', Paired messages (S.initial true key) (S.initial false key')
  next : ∀ {n w r} (payload : String), Paired (n + 1) w r →
    ∃ r' text, S.read r (S.write w payload).2 = some (r', text) ∧ Paired n r' (S.write w payload).1
  final : ∀ {s s'}, Paired 0 s s' → s = s'

/-! ## Handshake -/

structure HandshakeState (S : Suite B) where
  secret : S.Secret
  initiator : Bool
  myTurn : Bool
  /-- How many messages of the pattern are left. -/
  remaining : Nat

namespace HandshakeState

/-- The state before the first of `messages` messages; the initiator writes it. -/
def build (S : Suite B) (messages : Nat) (initiator : Bool) (key : S.Key) : HandshakeState S :=
  ⟨S.initial initiator key, initiator, initiator, messages⟩

def writeMessage (h : HandshakeState S) (payload : String) : Option (HandshakeState S × B) :=
  if !h.myTurn || h.remaining == 0 then none
  else
    let r := S.write h.secret payload
    if maxMessageLength < S.size r.2 then none
    else some ({ h with secret := r.1, myTurn := false, remaining := h.remaining - 1 }, r.2)

def readMessage (h : HandshakeState S) (message : B) : Option (HandshakeState S × B) :=
  if h.myTurn || h.remaining == 0 || maxMessageLength < S.size message then none
  else
    (S.read h.secret message).map fun r =>
      ({ h with secret := r.1, myTurn := true, remaining := h.remaining - 1 }, r.2)

/-- A short payload is always written when it is this side's turn. -/
theorem writeMessage_eq (secret : S.Secret) (initiator : Bool) (n : Nat) {payload : String}
    (hshort : payload.utf8ByteSize + handshakeOverhead ≤ maxMessageLength) :
    writeMessage ⟨secret, initiator, true, n + 1⟩ payload =
      some (⟨(S.write secret payload).1, initiator, false, n⟩, (S.write secret payload).2) := by
  have hsize : ¬maxMessageLength < S.size (S.write secret payload).2 :=
    Nat.not_lt.mpr (Nat.le_trans (S.size_write secret payload) hshort)
  simp [writeMessage, hsize]

/-- A message is read exactly when it is short enough and valid at this point. -/
theorem readMessage_eq (secret : S.Secret) (initiator : Bool) (n : Nat) (message : B) :
    readMessage ⟨secret, initiator, false, n + 1⟩ message =
      if maxMessageLength < S.size message then none
      else (S.read secret message).map fun r => (⟨r.1, initiator, true, n⟩, r.2) := by
  simp [readMessage]

end HandshakeState

/-! ## Transport -/

structure TransportState (S : Suite B) where
  secret : S.Secret
  initiator : Bool
  sending : Nat
  receiving : Nat

/-- A finished handshake becomes a transport whose counters are zero. -/
def HandshakeState.intoTransportMode (h : HandshakeState S) : Option (TransportState S) :=
  if h.remaining = 0 then some ⟨h.secret, h.initiator, 0, 0⟩ else none

namespace TransportState

def writeMessage (t : TransportState S) (payload : B) : Option (TransportState S × B) :=
  if maxMessageLength < S.size payload + tagLength then none
  else
    some ({ t with sending := t.sending + 1 }, S.encrypt t.secret t.initiator t.sending payload)

/-- Only a message that opens advances the counter. -/
def readMessage (t : TransportState S) (message : B) : Option (TransportState S × B) :=
  if maxMessageLength < S.size message then none
  else
    (S.decrypt t.secret (!t.initiator) t.receiving message).map fun payload =>
      ({ t with receiving := t.receiving + 1 }, payload)

theorem writeMessage_eq_some {t t' : TransportState S} {payload c : B} :
    t.writeMessage payload = some (t', c) ↔
      S.size payload + tagLength ≤ maxMessageLength ∧
        t' = { t with sending := t.sending + 1 } ∧
        c = S.encrypt t.secret t.initiator t.sending payload := by
  unfold writeMessage
  split
  · next hlong => simp [Nat.not_le.mpr hlong]
  · next hfits => simp [Nat.le_of_not_lt hfits, eq_comm]

/-- **A message opens where it was encrypted**: by the other role, under the same secret and at the
same counter value. -/
theorem readMessage_encrypt {t : TransportState S} {payload : B}
    (hfits : S.size payload + tagLength ≤ maxMessageLength) :
    t.readMessage (S.encrypt t.secret (!t.initiator) t.receiving payload) =
      some ({ t with receiving := t.receiving + 1 }, payload) := by
  have hopen : S.decrypt t.secret (!t.initiator) t.receiving
      (S.encrypt t.secret (!t.initiator) t.receiving payload) = some payload :=
    (S.decrypt_eq_some _ _ _ _ _).mpr rfl
  unfold readMessage
  rw [S.size_encrypt, if_neg (Nat.not_lt.mpr hfits), hopen]
  rfl

end TransportState

end FrostFederation.Lib.Noise
