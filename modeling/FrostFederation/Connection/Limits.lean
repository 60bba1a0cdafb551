/-
# FrostFederation.Connection.Limits — how long a message may be.

Three limits meet when a frame is sent: the tag that the encryption adds, the longest Noise message,
and the two-byte length field of the framing.  They agree, so whatever `handle_send` writes the peer
can read.  But nothing checks a message against them: an encoding that is one byte too long makes
`write_message` return an error, and `build_transport_message` unwraps it.  The same goes for the
serializer behind `as_bytes`.  So `handle_send` panics on every message that does not serialize or
does not fit, and is safe on all others.
-/
import Mathlib.Algebra.Order.BigOperators.Group.List
import Mathlib.Algebra.Order.Ring.Nat
import FrostFederation.Connection.Actor

namespace FrostFederation.Connection

open FrostFederation.Lib
open FrostFederation.Lib.Noise
open FrostFederation.Lib.Serde (Format Value)
open FrostFederation.Protocol
open FrostFederation.ReliableSender (ReliableNetworkMessage)

/-! ## What it means to send safely -/

/-- The length field of `Node::build_reader_writer`, in bytes. -/
def lengthFieldLength : Nat := 2

section Safely

variable {B : Type} {snow : Snow B} (flexbuffers : Format B) (initiator : Bool)
  (secret : snow.Secret) (n k : Nat) (msg : ReliableNetworkMessage)

/-- The frame fits the length field, and a peer that has read the `n` frames before it reads the
bytes of `msg` from it. -/
structure ReadByPeer (frame : B) : Prop where
  framed : snow.size frame < 256 ^ lengthFieldLength
  read : ∀ j, ∃ bytes, msg.asBytes flexbuffers = some (some bytes) ∧
    NoiseIo.readTransportMessage (NoiseHandler.transporting (!initiator) secret j n) frame =
      some (NoiseHandler.transporting (!initiator) secret j (n + 1), bytes)

/-- `handle_send` writes one frame that is short enough and that the peer reads, or it returns an
error and the task ends by returning. -/
def SendsSafely (tx : Oneshot) (written : Bool) : Prop :=
  (∃ noise frame, handleSend flexbuffers (NoiseHandler.transporting initiator secret n k) msg tx
        written = (.ok noise, [.write frame true, .respond tx]) ∧
      snow.size frame ≤ maxMessageLength ∧ ReadByPeer flexbuffers initiator secret n msg frame) ∨
    ∃ noise text effects, handleSend flexbuffers (NoiseHandler.transporting initiator secret n k) msg
        tx written = (.error noise text, effects) ∧
      ∀ t : ConnectionTask (NoiseHandler snow), (t.handled (.error noise text)).phase = .returned

variable {flexbuffers initiator secret n k msg}

/-- What `handle_send` does with a message that serializes and fits. -/
theorem handleSend_of_fits {bytes : B} (hbytes : msg.asBytes flexbuffers = some (some bytes))
    (hfits : snow.size bytes + tagLength ≤ maxMessageLength) (tx : Oneshot) (written : Bool) :
    handleSend flexbuffers (NoiseHandler.transporting initiator secret n k) msg tx written =
      if written then
        (.ok (NoiseHandler.transporting initiator secret (n + 1) k),
          [.write (snow.encrypt secret initiator n bytes) true, .respond tx])
      else
        (.error (NoiseHandler.transporting initiator secret (n + 1) k)
            "Error writing to socket stream",
          [.write (snow.encrypt secret initiator n bytes) false, .drop tx]) := by
  have hbuild : NoiseIo.buildTransportMessage (NoiseHandler.transporting initiator secret n k)
      bytes = some (NoiseHandler.transporting initiator secret (n + 1) k,
        snow.encrypt secret initiator n bytes) :=
    NoiseHandler.buildTransportMessage_transporting.mpr ⟨hfits, rfl, rfl⟩
  simp only [handleSend, hbytes, hbuild]

/-- `handle_send` panics on a message that serializes and does not fit. -/
theorem handleSend_of_long {bytes : B} (hbytes : msg.asBytes flexbuffers = some (some bytes))
    (hlong : ¬snow.size bytes + tagLength ≤ maxMessageLength) (tx : Oneshot) (written : Bool) :
    handleSend flexbuffers (NoiseHandler.transporting initiator secret n k) msg tx written =
      (.panicked, [.drop tx]) := by
  have hbuild : NoiseIo.buildTransportMessage (NoiseHandler.transporting initiator secret n k)
      bytes = none := by
    apply Option.eq_none_iff_forall_ne_some.mpr
    rintro ⟨noise, data⟩ hsome
    exact hlong (NoiseHandler.buildTransportMessage_transporting.mp hsome).1
  simp only [handleSend, hbytes, hbuild]

/-- What is written for a message that fits is read by the peer. -/
theorem readByPeer_of_fits {bytes : B} (hbytes : msg.asBytes flexbuffers = some (some bytes))
    (hfits : snow.size bytes + tagLength ≤ maxMessageLength) :
    ReadByPeer flexbuffers initiator secret n msg (snow.encrypt secret initiator n bytes) where
  framed := by
    rw [snow.size_encrypt]
    show _ < 65536
    unfold maxMessageLength at hfits
    omega
  read := by
    intro j
    have hread : NoiseIo.readTransportMessage (NoiseHandler.transporting (!initiator) secret j n)
        (snow.encrypt secret (!!initiator) n bytes) =
          some (NoiseHandler.transporting (!initiator) secret j (n + 1), bytes) :=
      NoiseHandler.readTransportMessage_transporting hfits
    rw [Bool.not_not] at hread
    exact ⟨bytes, hbytes, hread⟩

end Safely

/-! ## Which messages are sent safely -/

/-- **`handle_send` is safe for exactly the messages that serialize to at most 65519 bytes.**  On
every other message it panics. -/
theorem sendsSafely_iff {B : Type} {snow : Snow B} (flexbuffers : Format B) (initiator : Bool)
    (secret : snow.Secret) (n k : Nat) (msg : ReliableNetworkMessage) (tx : Oneshot)
    (written : Bool) :
    SendsSafely flexbuffers initiator secret n k msg tx written ↔
      ∃ bytes, msg.asBytes flexbuffers = some (some bytes) ∧ snow.size bytes ≤ 65519 := by
  have hlimit : ∀ bytes, snow.size bytes + tagLength ≤ maxMessageLength ↔
      snow.size bytes ≤ 65519 := by
    intro bytes
    show snow.size bytes + 16 ≤ 65535 ↔ _
    omega
  cases hserialize : msg.serialize with
  | error error =>
      -- `as_bytes` panics
      have hnone : msg.asBytes flexbuffers = none := by
        rw [ReliableNetworkMessage.asBytes, hserialize]
      simp [SendsSafely, handleSend, hnone]
  | ok v =>
      have hbytes : msg.asBytes flexbuffers = some (some (flexbuffers.serialize v)) := by
        rw [ReliableNetworkMessage.asBytes, hserialize]
      have hcond : (∃ bytes, msg.asBytes flexbuffers = some (some bytes) ∧
          snow.size bytes ≤ 65519) ↔
          snow.size (flexbuffers.serialize v) + tagLength ≤ maxMessageLength := by
        rw [hlimit]
        simp [hbytes]
      rw [hcond]
      by_cases hfits : snow.size (flexbuffers.serialize v) + tagLength ≤ maxMessageLength
      · refine iff_of_true ?_ hfits
        have hsend : handleSend flexbuffers (NoiseHandler.transporting initiator secret n k) msg tx
            written = _ := handleSend_of_fits hbytes hfits tx written
        cases written with
        | true =>
            refine Or.inl ⟨_, _, hsend, ?_, readByPeer_of_fits hbytes hfits⟩
            rw [snow.size_encrypt]
            exact hfits
        | false => exact Or.inr ⟨_, _, _, hsend, fun t => rfl⟩
      · refine iff_of_false ?_ hfits
        simp [SendsSafely, handleSend_of_long hbytes hfits]

/-! ## A membership list that is too long -/

mutual

/-- The text in a value, in bytes: every encoding is at least that long. -/
def textLength : Value → Nat
  | .unit => 0
  | .uint _ => 0
  | .str s => s.utf8ByteSize
  | .seq items => itemsLength items
  | .map entries => entriesLength entries

def itemsLength : List Value → Nat
  | [] => 0
  | v :: rest => textLength v + itemsLength rest

def entriesLength : List (String × Value) → Nat
  | [] => 0
  | (_, v) :: rest => textLength v + entriesLength rest

end

theorem itemsLength_strings (texts : List String) :
    itemsLength (texts.map Value.str) = (texts.map String.utf8ByteSize).sum := by
  induction texts with
  | nil => rfl
  | cons text rest ih => simp [itemsLength, textLength, ih]

theorem entriesLength_eq_sum (entries : List (String × Value)) :
    entriesLength entries = (entries.map fun entry => textLength entry.2).sum := by
  induction entries with
  | nil => rfl
  | cons entry rest ih => simp [entriesLength, ih]

/-- Sorting the entries does not change how much text is in them. -/
theorem textLength_object (entries : List (String × Value)) :
    textLength (.object entries) = entriesLength entries := by
  show entriesLength (Serde.sortByKey entries) = _
  rw [entriesLength_eq_sum, entriesLength_eq_sum]
  exact ((List.perm_insertionSort _ entries).map _).sum_eq

/-- The stand-in for the cryptography, with buffers that are as long as the text in them. -/
def Snow.measured : Snow (Value × List (Bool × Nat)) where
  toSuite :=
    { Snow.transparent.toSuite with
      size := fun bytes => textLength bytes.1 + tagLength * bytes.2.length
      size_write := fun _ payload => by
        show payload.utf8ByteSize + 0 ≤ _
        omega
      size_encrypt := fun _ _ _ bytes => by
        show textLength bytes.1 + tagLength * (bytes.2.length + 1) = _
        rw [Nat.mul_succ, Nat.add_assoc] }
  fromPkcs8Pem := Snow.transparent.fromPkcs8Pem

/-- An initiator that has just finished its handshake. -/
def measuring : NoiseHandler Snow.measured := .transporting true noSecret 0 0

/-- The frame that pushes a list of members. -/
def membershipFrame (members : List String) : ReliableNetworkMessage :=
  .send (.unicastMessage (.membership ⟨"localhost:6680", some members⟩)) 1

/-- The addresses of many peers. -/
def manyPeers : List String := (List.range 6552).map fun i => "127.0.0.1:" ++ toString i

theorem asBytes_membershipFrame (members : List String) :
    ∃ bytes, (membershipFrame members).asBytes bareValues = some (some bytes) ∧
      (members.map String.utf8ByteSize).sum ≤ Snow.measured.size bytes := by
  refine ⟨_, rfl, ?_⟩
  show _ ≤ textLength (.variant "Send" (.seq [.variant "Membership"
    (MembershipMessage.serialize ⟨"localhost:6680", some members⟩), .uint _])) + _
  have hbody : textLength (MembershipMessage.serialize ⟨"localhost:6680", some members⟩) =
      "localhost:6680".utf8ByteSize + (members.map String.utf8ByteSize).sum := by
    rw [MembershipMessage.serialize, textLength_object, ← itemsLength_strings]
    rfl
  simp only [Value.variant, textLength, entriesLength, itemsLength, hbody]
  omega

/-- Every address is at least ten bytes long. -/
theorem length_manyPeers : 65520 ≤ (manyPeers.map String.utf8ByteSize).sum := by
  have hten : ∀ size ∈ manyPeers.map String.utf8ByteSize, 10 ≤ size := by
    intro size hsize
    simp only [manyPeers, List.map_map, List.mem_map] at hsize
    obtain ⟨i, -, rfl⟩ := hsize
    show 10 ≤ ("127.0.0.1:" ++ toString i).utf8ByteSize
    rw [String.utf8ByteSize_append]
    exact Nat.le_add_right 10 _
  have hsum := List.card_nsmul_le_sum _ 10 hten
  simpa [manyPeers] using hsum

/-- **A membership list that is too long ends the connection's task.**  The addresses of 6552 peers
do not fit into one Noise message, and the error is unwrapped. -/
theorem panics_manyPeers :
    handleSend bareValues measuring (membershipFrame manyPeers) 0 true = (.panicked, [.drop 0]) ∧
      ¬@SendsSafely _ Snow.measured bareValues true noSecret 0 0 (membershipFrame manyPeers) 0
        true := by
  obtain ⟨bytes, hbytes, hsize⟩ := asBytes_membershipFrame manyPeers
  have hlong : ¬Snow.measured.size bytes + tagLength ≤ maxMessageLength := by
    have hmany := length_manyPeers
    show ¬_ + 16 ≤ 65535
    omega
  have hpanic : handleSend bareValues measuring (membershipFrame manyPeers) 0 true =
      (.panicked, [.drop 0]) := handleSend_of_long hbytes hlong 0 true
  refine ⟨hpanic, ?_⟩
  rintro (⟨noise, frame, hsend, -⟩ | ⟨noise, text, effects, hsend, -⟩)
  · cases hpanic.symm.trans hsend
  · cases hpanic.symm.trans hsend

end FrostFederation.Connection
