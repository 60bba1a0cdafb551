/-
# FrostFederation.ReliableSender.Wire — what goes over the wire, and that it comes back.

The derived serializers and deserializers of the message types, and `as_bytes` / `from_bytes` on top
of a format.  `Unicast`, `Broadcast` and `ReliableNetworkMessage` are externally tagged; `Message` is
UNTAGGED, so a received message is first tried as a unicast and then as a broadcast.  The round trip
rests on the two never being confused: a broadcast is tagged with a name that is not the name of a
unicast (`Unicast.deserialize_broadcast`).  The two are read from a buffered value, the frame around
them from the format itself, and only the first insists on a map of one entry.

Struct fields are found by name, optional ones are the unit when absent, a message id is its number,
and a time is the seconds and nanoseconds since the Unix epoch.  A time before the epoch does not
serialize, and `as_bytes` panics on it.
-/
import FrostFederation.Lib.Serde
import FrostFederation.ReliableSender.Actor

namespace FrostFederation

open FrostFederation.Lib
open FrostFederation.Lib.Serde (Value Decoder Format)

namespace Protocol

/-! ## Times and ids -/

namespace SystemTime

def nanosPerSec : Nat := 1000000000

/-- The seconds of a `SystemTime` are an `i64`. -/
def maxSecs : Nat := 2 ^ 63

def serialize (t : SystemTime) : Except Serde.Error Value :=
  if t < 0 then .error (.custom "SystemTime must be later than UNIX_EPOCH")
  else .ok (.object [("secs_since_epoch", .uint (t.toNat / nanosPerSec)),
    ("nanos_since_epoch", .uint (t.toNat % nanosPerSec))])

def deserialize : Decoder SystemTime := fun v => do
  let names := ["secs_since_epoch", "nanos_since_epoch"]
  let entries ← Serde.fields names v
  Serde.onlyFields names entries
  let secs ← Serde.required "secs_since_epoch" (Serde.unsigned (2 ^ 64)) entries
  let nanos ← Serde.required "nanos_since_epoch" (Serde.unsigned (2 ^ 32)) entries
  if 2 ^ 64 ≤ secs + nanos / nanosPerSec then
    .error (.custom "overflow deserializing SystemTime epoch offset")
  else if maxSecs ≤ secs + nanos / nanosPerSec then
    .error (.custom "overflow deserializing SystemTime")
  else .ok (secs * nanosPerSec + nanos : Nat)

/-- A time at or after the Unix epoch that a `SystemTime` can hold. -/
def SinceEpoch (t : SystemTime) : Prop := 0 ≤ t ∧ t < (maxSecs * nanosPerSec : Nat)

end SystemTime

def MessageId.serialize (m : MessageId) : Value := .uint m.val.toNat

def MessageId.deserialize : Decoder MessageId := fun v => (Serde.u64 v).map MessageId.mk

/-! ## The message bodies -/

def HandshakeMessage.serialize (m : HandshakeMessage) : Value :=
  .object [("sender_id", .str m.senderId), ("message", .str m.message), ("version", .str m.version)]

def HandshakeMessage.deserialize : Decoder HandshakeMessage := fun v => do
  let entries ← Serde.fields ["sender_id", "message", "version"] v
  let senderId ← Serde.required "sender_id" Serde.string entries
  let message ← Serde.required "message" Serde.string entries
  let version ← Serde.required "version" Serde.string entries
  return ⟨senderId, message, version⟩

def HeartbeatMessage.serialize (m : HeartbeatMessage) : Except Serde.Error Value :=
  (SystemTime.serialize m.time).map fun time =>
    .object [("sender_id", .str m.senderId), ("time", time)]

def HeartbeatMessage.deserialize : Decoder HeartbeatMessage := fun v => do
  let entries ← Serde.fields ["sender_id", "time"] v
  let senderId ← Serde.required "sender_id" Serde.string entries
  let time ← Serde.required "time" SystemTime.deserialize entries
  return ⟨senderId, time⟩

def PingMessage.serialize (m : PingMessage) : Value :=
  .object [("sender_id", .str m.senderId), ("message", .str m.message)]

def PingMessage.deserialize : Decoder PingMessage := fun v => do
  let entries ← Serde.fields ["sender_id", "message"] v
  let senderId ← Serde.required "sender_id" Serde.string entries
  let message ← Serde.required "message" Serde.string entries
  return ⟨senderId, message⟩

def MembershipMessage.serialize (m : MembershipMessage) : Value :=
  .object [("sender_id", .str m.senderId),
    ("message", .option (fun members => .seq (members.map Value.str)) m.message)]

def MembershipMessage.deserialize : Decoder MembershipMessage := fun v => do
  let entries ← Serde.fields ["sender_id", "message"] v
  let senderId ← Serde.required "sender_id" Serde.string entries
  let message ← Serde.optional "message" (Serde.vec Serde.string) entries
  return ⟨senderId, message⟩

def RoundOnePackageMessage.serialize (m : RoundOnePackageMessage) : Value :=
  .object [("sender_id", .str m.senderId), ("message", .str m.message)]

def RoundOnePackageMessage.deserialize : Decoder RoundOnePackageMessage := fun v => do
  let entries ← Serde.fields ["sender_id", "message"] v
  let senderId ← Serde.required "sender_id" Serde.string entries
  let message ← Serde.required "message" Serde.string entries
  return ⟨senderId, message⟩

/-! ## Unicast, broadcast, message -/

def Unicast.serialize : Unicast → Except Serde.Error Value
  | .handshake m => .ok (.variant "Handshake" m.serialize)
  | .heartbeat m => m.serialize.map (.variant "Heartbeat")
  | .ping m => .ok (.variant "Ping" m.serialize)
  | .membership m => .ok (.variant "Membership" m.serialize)

def Unicast.deserialize : Decoder Unicast := fun v => do
  let (name, content) ← Serde.onlyVariant v
  if name = "Handshake" then return .handshake (← HandshakeMessage.deserialize content)
  else if name = "Heartbeat" then return .heartbeat (← HeartbeatMessage.deserialize content)
  else if name = "Ping" then return .ping (← PingMessage.deserialize content)
  else if name = "Membership" then return .membership (← MembershipMessage.deserialize content)
  else .error (.unknownVariant name)

def Broadcast.serialize : Broadcast → Value
  | .roundOnePackage m messageId =>
      .variant "RoundOnePackage" (.seq [m.serialize, .option MessageId.serialize messageId])

def Broadcast.deserialize : Decoder Broadcast := fun v => do
  let (name, content) ← Serde.onlyVariant v
  if name = "RoundOnePackage" then
    let (m, messageId) ← Serde.tuple₂ RoundOnePackageMessage.deserialize
      (Serde.option MessageId.deserialize) content
    return .roundOnePackage m messageId
  else .error (.unknownVariant name)

/-- An untagged enum serializes as its content. -/
def Message.serialize : Message → Except Serde.Error Value
  | .unicastMessage m => m.serialize
  | .broadcastMessage m => .ok m.serialize

/-- An untagged enum is tried variant by variant, in the order of the declaration. -/
def Message.deserialize : Decoder Message :=
  Serde.firstOf (fun v => (Unicast.deserialize v).map .unicastMessage)
    (fun v => (Broadcast.deserialize v).map .broadcastMessage)

/-- Every time in the message can be sent. -/
def Message.SinceEpoch : Message → Prop
  | .unicastMessage (.heartbeat m) => SystemTime.SinceEpoch m.time
  | _ => True

/-! ## Each type encodes to a well-formed value -/

theorem MessageId.wellFormed_serialize (m : MessageId) : m.serialize.WellFormed :=
  Value.wellFormed_uint_toNat m.val

theorem SystemTime.SinceEpoch.secs_lt {t : SystemTime} (h : SinceEpoch t) :
    t.toNat / nanosPerSec < maxSecs := by
  apply Nat.div_lt_of_lt_mul
  rw [Nat.mul_comm]
  exact (Int.toNat_lt h.1).mpr h.2

theorem SystemTime.wellFormed_of_serialize {t : SystemTime} {v : Value} (h : SinceEpoch t)
    (hv : serialize t = .ok v) : v.WellFormed := by
  have hsecs : t.toNat / nanosPerSec < 2 ^ 64 := Nat.lt_trans h.secs_lt (by decide)
  have hnanos : t.toNat % nanosPerSec < 2 ^ 64 :=
    Nat.lt_trans (Nat.mod_lt _ (by decide)) (by decide : nanosPerSec < 2 ^ 64)
  rw [serialize, if_neg (Int.not_lt.mpr h.1)] at hv
  obtain rfl := Except.ok.inj hv
  exact .object (by simp) (by simp [Value.WellFormed.uint hsecs, Value.WellFormed.uint hnanos])

theorem HandshakeMessage.wellFormed_serialize (m : HandshakeMessage) : m.serialize.WellFormed :=
  .object (by simp) (by simp)

theorem HeartbeatMessage.wellFormed_of_serialize {m : HeartbeatMessage} {v : Value}
    (h : SystemTime.SinceEpoch m.time) (hv : m.serialize = .ok v) : v.WellFormed := by
  obtain ⟨time, htime, rfl⟩ := Serde.exists_of_map_eq_ok hv
  exact .object (by simp) (by simp [SystemTime.wellFormed_of_serialize h htime])

theorem PingMessage.wellFormed_serialize (m : PingMessage) : m.serialize.WellFormed :=
  .object (by simp) (by simp)

theorem MembershipMessage.wellFormed_serialize (m : MembershipMessage) :
    m.serialize.WellFormed := by
  have hseq (members : List String) : (Value.seq (members.map Value.str)).WellFormed :=
    .seq (by simp)
  exact .object (by simp) (by simp [Value.WellFormed.option hseq])

theorem RoundOnePackageMessage.wellFormed_serialize (m : RoundOnePackageMessage) :
    m.serialize.WellFormed :=
  .object (by simp) (by simp)

theorem Unicast.wellFormed_of_serialize {m : Unicast} {v : Value}
    (h : (Message.unicastMessage m).SinceEpoch) (hv : m.serialize = .ok v) : v.WellFormed := by
  cases m with
  | handshake m =>
      obtain rfl := Except.ok.inj hv
      exact .variant _ m.wellFormed_serialize
  | heartbeat m =>
      obtain ⟨body, hbody, rfl⟩ := Serde.exists_of_map_eq_ok hv
      exact .variant _ (HeartbeatMessage.wellFormed_of_serialize h hbody)
  | ping m =>
      obtain rfl := Except.ok.inj hv
      exact .variant _ m.wellFormed_serialize
  | membership m =>
      obtain rfl := Except.ok.inj hv
      exact .variant _ m.wellFormed_serialize

theorem Broadcast.wellFormed_serialize (m : Broadcast) : m.serialize.WellFormed := by
  cases m with
  | roundOnePackage m messageId =>
      have hid := Value.WellFormed.option MessageId.wellFormed_serialize messageId
      exact .variant _ (.seq (by simp [m.wellFormed_serialize, hid]))

theorem Message.wellFormed_of_serialize {m : Message} {v : Value} (h : m.SinceEpoch)
    (hv : m.serialize = .ok v) : v.WellFormed := by
  cases m with
  | unicastMessage m => exact Unicast.wellFormed_of_serialize h hv
  | broadcastMessage m =>
      obtain rfl := Except.ok.inj hv
      exact m.wellFormed_serialize

/-! ## Each type decodes what it encodes -/

theorem MessageId.deserialize_serialize (m : MessageId) : deserialize m.serialize = .ok m := by
  unfold deserialize serialize
  rw [Serde.u64_uint]
  rfl

theorem SystemTime.deserialize_serialize {t : SystemTime} (h : SinceEpoch t) :
    ∃ v, serialize t = .ok v ∧ deserialize v = .ok t := by
  have hnonneg := h.1
  obtain ⟨n, rfl⟩ := Int.eq_ofNat_of_zero_le hnonneg
  have hsecs : n / nanosPerSec < maxSecs := h.secs_lt
  have hnanos : n % nanosPerSec < nanosPerSec := Nat.mod_lt _ (by decide)
  have hwhole : n % nanosPerSec / nanosPerSec = 0 := Nat.div_eq_of_lt hnanos
  have hsecs64 : n / nanosPerSec < 2 ^ 64 := by
    unfold maxSecs at hsecs
    omega
  have hnanos32 : n % nanosPerSec < 2 ^ 32 := by
    unfold nanosPerSec at hnanos ⊢
    omega
  refine ⟨_, if_neg (Int.not_lt.mpr hnonneg), ?_⟩
  unfold deserialize
  simp only [Serde.fields_object, Serde.ok_bind, Int.toNat_natCast]
  rw [Serde.onlyFields_sortByKey (by simp)]
  simp only [Serde.required_sortByKey, Serde.ok_bind]
  rw [Serde.required_cons_self (by simp), Serde.required_cons_ne (by decide),
    Serde.required_cons_self (by simp), Serde.unsigned_uint hsecs64, Serde.unsigned_uint hnanos32]
  simp only [Serde.ok_bind, hwhole, Nat.add_zero]
  rw [if_neg (Nat.not_le.mpr hsecs64), if_neg (Nat.not_le.mpr hsecs), Nat.div_add_mod']

theorem HandshakeMessage.deserialize_serialize (m : HandshakeMessage) :
    deserialize m.serialize = .ok m := by
  simp [deserialize, serialize]

theorem HeartbeatMessage.deserialize_serialize {m : HeartbeatMessage}
    (h : SystemTime.SinceEpoch m.time) : ∃ v, m.serialize = .ok v ∧ deserialize v = .ok m := by
  obtain ⟨time, hserialize, hdeserialize⟩ := SystemTime.deserialize_serialize h
  refine ⟨_, by rw [serialize, hserialize]; rfl, ?_⟩
  simp [deserialize, hdeserialize]

theorem PingMessage.deserialize_serialize (m : PingMessage) : deserialize m.serialize = .ok m := by
  simp [deserialize, serialize]

theorem MembershipMessage.deserialize_serialize (m : MembershipMessage) :
    deserialize m.serialize = .ok m := by
  have hseq : ∀ members : List String,
      Serde.vec Serde.string (.seq (members.map Value.str)) = .ok members :=
    Serde.vec_seq Serde.string_str
  have hmembers := Serde.option_option hseq (fun _ h => by cases h) m.message
  simp [deserialize, serialize, hmembers]

theorem RoundOnePackageMessage.deserialize_serialize (m : RoundOnePackageMessage) :
    deserialize m.serialize = .ok m := by
  simp [deserialize, serialize]

theorem Unicast.deserialize_serialize {m : Unicast} (h : (Message.unicastMessage m).SinceEpoch) :
    ∃ v, m.serialize = .ok v ∧ deserialize v = .ok m := by
  cases m with
  | handshake m => exact ⟨_, rfl, by simp [deserialize, HandshakeMessage.deserialize_serialize]⟩
  | heartbeat m =>
      obtain ⟨v, hserialize, hdeserialize⟩ := HeartbeatMessage.deserialize_serialize h
      refine ⟨_, by rw [serialize, hserialize]; rfl, ?_⟩
      simp [deserialize, hdeserialize]
  | ping m => exact ⟨_, rfl, by simp [deserialize, PingMessage.deserialize_serialize]⟩
  | membership m => exact ⟨_, rfl, by simp [deserialize, MembershipMessage.deserialize_serialize]⟩

theorem Broadcast.deserialize_serialize (m : Broadcast) : deserialize m.serialize = .ok m := by
  cases m with
  | roundOnePackage m messageId =>
      have hid := Serde.option_option MessageId.deserialize_serialize
        (fun _ h => by cases h) messageId
      simp [deserialize, serialize, Serde.tuple₂, RoundOnePackageMessage.deserialize_serialize, hid]

/-- No broadcast decodes as a unicast. -/
theorem Unicast.deserialize_broadcast (m : Broadcast) :
    deserialize m.serialize = .error (.unknownVariant "RoundOnePackage") := by
  cases m with
  | roundOnePackage m messageId => simp [deserialize, Broadcast.serialize]

/-- An untagged message decodes to itself, whichever variant it is. -/
theorem Message.deserialize_serialize {m : Message} (h : m.SinceEpoch) :
    ∃ v, m.serialize = .ok v ∧ deserialize v = .ok m := by
  cases m with
  | unicastMessage m =>
      obtain ⟨v, hserialize, hdeserialize⟩ := Unicast.deserialize_serialize h
      refine ⟨v, hserialize, Serde.firstOf_first ?_⟩
      rw [hdeserialize]
      rfl
  | broadcastMessage m =>
      refine ⟨m.serialize, rfl,
        Serde.firstOf_second (e := .unknownVariant "RoundOnePackage") ?_ ?_⟩
      · rw [Unicast.deserialize_broadcast]
        rfl
      · rw [Broadcast.deserialize_serialize]
        rfl

end Protocol

/-! ## Frames -/

namespace ReliableSender

open FrostFederation.Protocol

namespace ReliableNetworkMessage

variable {B : Type}

def serialize : ReliableNetworkMessage → Except Serde.Error Value
  | .send message n => message.serialize.map fun v => .variant "Send" (.seq [v, .uint n.toNat])
  | .ack n => .ok (.variant "Ack" (.uint n.toNat))

def deserialize : Decoder ReliableNetworkMessage := fun v => do
  let (name, content) ← Serde.variant v
  if name = "Send" then
    let (message, n) ← Serde.leading₂ Message.deserialize Serde.u64 content
    return .send message n
  else if name = "Ack" then return .ack (← Serde.u64 content)
  else .error (.unknownVariant name)

/-- `as_bytes`.  A message that does not serialize is a panic; otherwise the result is `Some`. -/
def asBytes (flexbuffers : Format B) (m : ReliableNetworkMessage) : Option (Option B) :=
  match m.serialize with
  | .error _ => none
  | .ok v => some (some (flexbuffers.serialize v))

/-- `from_bytes`. -/
def fromBytes (flexbuffers : Format B) (b : B) : Except Serde.Error ReliableNetworkMessage := do
  deserialize (← flexbuffers.deserialize b)

/-- Every time in the frame can be sent. -/
def SinceEpoch : ReliableNetworkMessage → Prop
  | .send message _ => message.SinceEpoch
  | .ack _ => True

theorem wellFormed_of_serialize {m : ReliableNetworkMessage} {v : Value} (h : m.SinceEpoch)
    (hv : m.serialize = .ok v) : v.WellFormed := by
  cases m with
  | ack n =>
      obtain rfl := Except.ok.inj hv
      exact .variant _ (Value.wellFormed_uint_toNat n)
  | send message n =>
      obtain ⟨body, hbody, rfl⟩ := Serde.exists_of_map_eq_ok hv
      have hmessage := Message.wellFormed_of_serialize h hbody
      exact .variant _ (.seq (by simp [hmessage]))

theorem deserialize_serialize {m : ReliableNetworkMessage} (h : m.SinceEpoch) :
    ∃ v, m.serialize = .ok v ∧ deserialize v = .ok m := by
  cases m with
  | ack n => exact ⟨_, rfl, by simp [deserialize]⟩
  | send message n =>
      obtain ⟨v, hserialize, hdeserialize⟩ := Message.deserialize_serialize h
      refine ⟨_, by rw [serialize, hserialize]; rfl, ?_⟩
      simp [deserialize, Serde.leading₂, hdeserialize]

/-- The bytes of a frame that can be sent decode to it. -/
theorem fromBytes_of_asBytes {flexbuffers : Format B} {m : ReliableNetworkMessage} {b : B}
    (h : m.SinceEpoch) (hbytes : m.asBytes flexbuffers = some (some b)) :
    fromBytes flexbuffers b = .ok m := by
  obtain ⟨v, hserialize, hdeserialize⟩ := deserialize_serialize h
  rw [asBytes, hserialize] at hbytes
  obtain rfl : flexbuffers.serialize v = b := by simpa using hbytes
  unfold fromBytes
  rw [flexbuffers.deserialize_serialize v (wellFormed_of_serialize h hserialize)]
  exact hdeserialize

/-- **A frame that can be sent comes back as it was**: whatever it carries, `from_bytes` of its
`as_bytes` is the frame. -/
theorem fromBytes_asBytes (flexbuffers : Format B) {m : ReliableNetworkMessage}
    (h : m.SinceEpoch) :
    ∃ b, m.asBytes flexbuffers = some (some b) ∧ fromBytes flexbuffers b = .ok m := by
  obtain ⟨v, hserialize, -⟩ := deserialize_serialize h
  have hbytes : m.asBytes flexbuffers = some (some (flexbuffers.serialize v)) := by
    rw [asBytes, hserialize]
  exact ⟨_, hbytes, fromBytes_of_asBytes h hbytes⟩

/-- A heartbeat, whose time is the one part of a frame that may not serialize. -/
theorem fromBytes_asBytes_heartbeat :
    SinceEpoch (.send (.unicastMessage (.heartbeat ⟨"a", 1500000000⟩)) 7) ∧
      ∃ b, asBytes Format.values (.send (.unicastMessage (.heartbeat ⟨"a", 1500000000⟩)) 7) =
          some (some b) ∧
        fromBytes Format.values b = .ok (.send (.unicastMessage (.heartbeat ⟨"a", 1500000000⟩)) 7) := by
  have hepoch : SinceEpoch (.send (.unicastMessage (.heartbeat ⟨"a", 1500000000⟩)) 7) :=
    ⟨by decide, by decide⟩
  exact ⟨hepoch, fromBytes_asBytes Format.values hepoch⟩

end ReliableNetworkMessage

end ReliableSender

end FrostFederation
