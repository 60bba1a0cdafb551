/-
# FrostFederation.Protocol.Message — the messages nodes exchange.

The types of `node/protocol.rs` and of the five message files under it.  A `Message` is a unicast
(handshake, heartbeat, ping, membership) or a broadcast (a round-one package with an OPTIONAL
message id).  Two readings of a message drive everything above: `getSenderId`, the id its sender
wrote into it, and `getMessageId`, which is present on a broadcast only if the broadcast carries
one.
-/
import Mathlib.Init

namespace FrostFederation.Protocol

/-! ## Message bodies -/

/-- `MessageId(pub u64)`. -/
structure MessageId where
  val : UInt64
  deriving DecidableEq, Repr

/-- `std::time::SystemTime`, in nanoseconds from the Unix epoch. -/
abbrev SystemTime := Int

structure HandshakeMessage where
  senderId : String
  message : String
  version : String
  deriving DecidableEq, Repr

structure HeartbeatMessage where
  senderId : String
  time : SystemTime
  deriving DecidableEq, Repr

structure PingMessage where
  senderId : String
  message : String
  deriving DecidableEq, Repr

/-- A membership push carries the member list; a request for it carries none. -/
structure MembershipMessage where
  senderId : String
  message : Option (List String)
  deriving DecidableEq, Repr

structure RoundOnePackageMessage where
  senderId : String
  message : String
  deriving DecidableEq, Repr

/-! ## Unicast, broadcast, message -/

inductive Unicast where
  | handshake (m : HandshakeMessage)
  | heartbeat (m : HeartbeatMessage)
  | ping (m : PingMessage)
  | membership (m : MembershipMessage)
  deriving DecidableEq, Repr

inductive Broadcast where
  | roundOnePackage (m : RoundOnePackageMessage) (messageId : Option MessageId)
  deriving DecidableEq, Repr

inductive Message where
  | unicastMessage (m : Unicast)
  | broadcastMessage (m : Broadcast)
  deriving DecidableEq, Repr

namespace Message

/-- The sender id every kind of message carries. -/
def getSenderId : Message → String
  | unicastMessage (.handshake m) => m.senderId
  | unicastMessage (.heartbeat m) => m.senderId
  | unicastMessage (.ping m) => m.senderId
  | unicastMessage (.membership m) => m.senderId
  | broadcastMessage (.roundOnePackage m _) => m.senderId

/-- The message id: none for a unicast, and for a broadcast whatever it carries. -/
def getMessageId : Message → Option MessageId
  | unicastMessage _ => none
  | broadcastMessage (.roundOnePackage _ mid) => mid

/-- `From<RoundOnePackageMessage>`: a package that has not been given a message id yet. -/
def ofRoundOnePackage (m : RoundOnePackageMessage) : Message :=
  broadcastMessage (.roundOnePackage m none)

/-- `From<Broadcast>`: a received broadcast is forwarded with the fields it came with. -/
def ofBroadcast : Broadcast → Message
  | .roundOnePackage m messageId => broadcastMessage (.roundOnePackage m messageId)

/-- A round-one package under a message id. -/
def package (senderId message : String) (mid : UInt64) : Message :=
  broadcastMessage (.roundOnePackage ⟨senderId, message⟩ (some ⟨mid⟩))

/-- The round-one payload of a broadcast. -/
def payload : Message → Option String
  | unicastMessage _ => none
  | broadcastMessage (.roundOnePackage m _) => some m.message

@[simp]
theorem ofBroadcast_eq (b : Broadcast) : ofBroadcast b = broadcastMessage b := by
  cases b
  rfl

/-- A message that carries a message id is a round-one package that carries it. -/
theorem eq_roundOnePackage_of_getMessageId {data : Message} {mid : MessageId}
    (h : data.getMessageId = some mid) :
    ∃ m, data = broadcastMessage (.roundOnePackage m (some mid)) := by
  cases data with
  | unicastMessage u => simp [getMessageId] at h
  | broadcastMessage b =>
      obtain ⟨m, messageId⟩ := b
      obtain rfl : messageId = some mid := h
      exact ⟨m, rfl⟩

end Message

end FrostFederation.Protocol
