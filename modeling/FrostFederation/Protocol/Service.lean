/-
# FrostFederation.Protocol.Service — the reply services and the message id generator.

`Protocol::call` dispatches a message to one of five services, and a service answers with a reply,
with nothing, or with an error.  What a service reads besides the message is passed in: the state
of the node (the keys of its membership and its id generator) and one clock reading.  The hash of
the standard library behind `calculate_hash` is a parameter.
-/
import Mathlib.Tactic.SplitIfs
import FrostFederation.Protocol.Message

namespace FrostFederation.Protocol

/-- `Result<Option<Message>, BoxError>`. -/
abbrev Reply := Except String (Option Message)

/-! ## Message ids -/

/-- A message id generator based on node id and local time. -/
structure MessageIdGenerator where
  nodeId : String
  deriving DecidableEq, Repr

/-- The next id: the clock reading in nanoseconds, followed by the node id, hashed. -/
def MessageIdGenerator.next (calculateHash : String → MessageId) (gen : MessageIdGenerator)
    (nanos : Nat) : MessageId :=
  calculateHash (toString nanos ++ gen.nodeId)

/-- A stand-in for the hash, for runs on fixed inputs. -/
def hashLength (text : String) : MessageId := ⟨text.length.toUInt64⟩

/-- What the services read of a node's `State`: the keys of the membership map, in the order it is
iterated, and the message id generator. -/
structure State where
  memberKeys : List String
  messageIdGenerator : MessageIdGenerator
  deriving DecidableEq, Repr

/-! ## The services -/

def Ping.call (senderId : String) : Message → Reply
  | .unicastMessage (.ping m) =>
      if m.message = "" then .ok (some (.unicastMessage (.ping ⟨senderId, "ping"⟩)))
      else if m.message = "ping" then .ok (some (.unicastMessage (.ping ⟨senderId, "pong"⟩)))
      else .ok none
  | _ => .ok none

/-- Unknown text is answered like an opening: with `helo`. -/
def Handshake.call (senderId : String) : Message → Reply
  | .unicastMessage (.handshake m) =>
      if m.message = "helo" then
        .ok (some (.unicastMessage (.handshake ⟨senderId, "oleh", "0.1.0"⟩)))
      else if m.message = "oleh" then .ok none
      else .ok (some (.unicastMessage (.handshake ⟨senderId, "helo", "0.1.0"⟩)))
  | _ => .ok none

def Heartbeat.call (senderId : String) (now : SystemTime) : Message → Reply
  | .unicastMessage (.heartbeat m) =>
      if m.senderId = "" then .ok (some (.unicastMessage (.heartbeat ⟨senderId, now⟩)))
      else .ok none
  | _ => .ok none

/-- The reply repeats the `sender_id` of the request; the service's own id is not read. -/
def Membership.call (state : State) : Message → Reply
  | .unicastMessage (.membership m) =>
      match m.message with
      | none => .ok (some (.unicastMessage (.membership ⟨m.senderId, some state.memberKeys⟩)))
      | some _ => .ok none
  | _ => .ok none

/-- The first instance of a package is given a message id; a package that has one is received and
nothing is sent back. -/
def RoundOnePackage.call (calculateHash : String → MessageId) (state : State) (nanos : Nat) :
    Message → Reply
  | .broadcastMessage (.roundOnePackage _ (some _)) => .ok none
  | .broadcastMessage (.roundOnePackage m none) =>
      .ok (some (.broadcastMessage
        (.roundOnePackage m (some (state.messageIdGenerator.next calculateHash nanos)))))
  | .unicastMessage _ => .error "Round one package should not be unicast"

/-- `Protocol::call`: the service for the kind of message, called once. -/
def call (calculateHash : String → MessageId) (nodeId : String) (state : State) (nanos : Nat)
    (msg : Message) : Reply :=
  match msg with
  | .unicastMessage (.ping _) => Ping.call nodeId msg
  | .unicastMessage (.handshake _) => Handshake.call nodeId msg
  | .unicastMessage (.heartbeat _) => Heartbeat.call nodeId nanos msg
  | .unicastMessage (.membership _) => Membership.call state msg
  | .broadcastMessage (.roundOnePackage _ _) => RoundOnePackage.call calculateHash state nanos msg

/-! ## In whose name a node replies -/

section Names

variable {calculateHash : String → MessageId} {nodeId : String} {state : State} {nanos : Nat}

/-- A reply is written in the node's own name, except that a membership list is written in the name
of whoever asked for it. -/
theorem getSenderId_of_call {message : Unicast} {reply : Message}
    (h : call calculateHash nodeId state nanos (.unicastMessage message) = .ok (some reply)) :
    reply.getSenderId = nodeId ∨
      ∃ senderId, message = .membership ⟨senderId, none⟩ ∧ reply.getSenderId = senderId := by
  cases message with
  | ping m =>
      simp only [call, Ping.call] at h
      split_ifs at h
      · cases h
        exact Or.inl rfl
      · cases h
        exact Or.inl rfl
      · cases h
  | handshake m =>
      simp only [call, Handshake.call] at h
      split_ifs at h
      · cases h
        exact Or.inl rfl
      · cases h
      · cases h
        exact Or.inl rfl
  | heartbeat m =>
      simp only [call, Heartbeat.call] at h
      split_ifs at h
      · cases h
        exact Or.inl rfl
      · cases h
  | membership m =>
      obtain ⟨senderId, asked⟩ := m
      cases asked with
      | some members => cases h
      | none =>
          cases h
          exact Or.inr ⟨senderId, rfl, rfl⟩

/-- **A node replies in its own name to every unicast message but a membership request that claims
another name.** -/
theorem speaks_for_itself_iff (message : Unicast) :
    (∀ reply, call calculateHash nodeId state nanos (.unicastMessage message) = .ok (some reply) →
      reply.getSenderId = nodeId) ↔
      ∀ senderId, message = .membership ⟨senderId, none⟩ → senderId = nodeId := by
  constructor
  · rintro h senderId rfl
    exact h _ rfl
  · intro h reply hreply
    rcases getSenderId_of_call hreply with hown | ⟨senderId, hmessage, hother⟩
    · exact hown
    · exact hother.trans (h senderId hmessage)

/-- A peer that asks for the members in another name is answered in that name. -/
theorem speaks_for_another :
    ∃ reply, call hashLength "localhost:6680" ⟨["127.0.0.1:50001"], ⟨"localhost"⟩⟩ 0
        (.unicastMessage (.membership ⟨"localhost:6681", none⟩)) = .ok (some reply) ∧
      reply.getSenderId = "localhost:6681" ∧ reply.getSenderId ≠ "localhost:6680" :=
  ⟨_, rfl, rfl, by decide⟩

end Names

section Broadcasts

variable (calculateHash : String → MessageId) (nodeId : String) (state : State) (nanos : Nat)

/-- A package without an id is answered with the same package under the next id. -/
theorem call_new_package (m : RoundOnePackageMessage) :
    call calculateHash nodeId state nanos (.ofRoundOnePackage m) =
      .ok (some (.broadcastMessage
        (.roundOnePackage m (some (state.messageIdGenerator.next calculateHash nanos))))) :=
  rfl

/-- A package with an id is answered with nothing. -/
theorem call_of_getMessageId {data : Message} {mid : MessageId}
    (h : data.getMessageId = some mid) : call calculateHash nodeId state nanos data = .ok none := by
  obtain ⟨m, rfl⟩ := Message.eq_roundOnePackage_of_getMessageId h
  rfl

end Broadcasts

end FrostFederation.Protocol
