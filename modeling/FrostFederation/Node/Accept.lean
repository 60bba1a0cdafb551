/-
# FrostFederation.Node.Accept — the accept loop and the peers it can survive.

The model of `Node::start_accept`.  The loop sets up one connection after the other in its own task:
the Noise handshake runs inline, and each of its steps `unwrap`s.  What a peer does during the set-up
is everything it will ever send (`Reader`), so a statement over all lists of incoming connections
ranges over all peers.

After a connection is registered the loop still sends a handshake message, a round-one package and
the membership over it, and ignores the results.  Whether these calls come to an end is no longer a
matter of the set-up; it is given with the connection.  `Node.Main` takes the calls one by one, and
`Main.served_of_run` reads off where the main task stands whether they have.
-/
import FrostFederation.Connection.Actor
import FrostFederation.EchoBroadcast.Actor

namespace FrostFederation.Node

open FrostFederation.Connection
open FrostFederation.Lib
open FrostFederation.Lib.Noise (maxMessageLength)
open FrostFederation.EchoBroadcast (ReliableSenderMap)

variable {E B : Type}

/-- What `listener.accept()` yields: an error, or a stream and the address of its peer.  `e` is the
endpoint of the connection, and `announced` says that the messages sent after its registration
return. -/
inductive Incoming (E B : Type) where
  | failed
  | accepted (e : E) (socketAddr : String) (reader : Reader B) (announced : Bool)

section Loop

variable (snow : Snow B) (staticKeyPem : String)

/-- The body of the loop of `start_accept`: the members after it.  The tasks that are spawned on the
way cannot fail it, and the membership actor always answers. -/
def acceptConnection (members : ReliableSenderMap E) :
    Incoming E B → Outcome (ReliableSenderMap E)
  | .failed => .panicked
  | .accepted e socketAddr reader announced => do
      let initiator := true
      let noise : NoiseHandler snow ← .unwrap (NoiseIo.new initiator staticKeyPem)
      let _ ← ConnectionTask.start noise initiator reader
      if announced then return members.insert socketAddr e else .waiting

/-- `start_accept` on a list of incoming connections: done when it is back at `listener.accept()`
after the last of them. -/
def startAccept (members : ReliableSenderMap E) (incoming : List (Incoming E B)) :
    Outcome (ReliableSenderMap E) :=
  incoming.foldlM (acceptConnection snow staticKeyPem) members

/-- A connection that gets through: the node's own key is one, the peer answers the first handshake
message with a valid second one, and the messages sent afterwards return. -/
def Incoming.Completes : Incoming E B → Prop
  | .failed => False
  | .accepted _ _ reader announced =>
      (∃ key, snow.fromPkcs8Pem staticKeyPem = some key ∧ reader.Answers key) ∧ announced = true

end Loop

variable {snow : Snow B} {staticKeyPem : String}

/-- `ConnectionActor::start` is its handshake. -/
theorem start_done_iff {N : Type} [NoiseIo N B] {noise : N} {init : Bool} {reader : Reader B} :
    (∃ r, ConnectionTask.start noise init reader = .done r) ↔
      ∃ r, runHandshake noise init reader = .done r := by
  unfold ConnectionTask.start
  cases runHandshake noise init reader <;> simp

/-- A connection is processed to the end exactly when it gets through. -/
theorem acceptConnection_done_iff (members : ReliableSenderMap E) (c : Incoming E B) :
    (∃ members', acceptConnection snow staticKeyPem members c = .done members') ↔
      c.Completes snow staticKeyPem := by
  cases c with
  | failed => simp [acceptConnection, Incoming.Completes]
  | accepted e socketAddr reader announced =>
      simp only [acceptConnection, Incoming.Completes, NoiseHandler.new_eq]
      cases snow.fromPkcs8Pem staticKeyPem with
      | none => simp
      | some key =>
          have hstart := start_done_iff.trans (runHandshake_initiator_done_iff key reader)
          simp only [Option.map_some, Outcome.unwrap_some, Outcome.done_bind,
            Outcome.exists_bind_eq_done, exists_and_right, Option.some.injEq, exists_eq_left',
            ← hstart]
          -- what remains is the `if` after the handshake
          cases announced <;> simp [NoiseHandler.patternMessages]

/-- **The loop survives exactly the connections that get through.** -/
theorem startAccept_done_iff (members : ReliableSenderMap E) (incoming : List (Incoming E B)) :
    (∃ members', startAccept snow staticKeyPem members incoming = .done members') ↔
      ∀ c ∈ incoming, c.Completes snow staticKeyPem := by
  induction incoming generalizing members with
  | nil => simp [startAccept]
  | cons c rest ih =>
      simp only [startAccept, List.foldlM_cons, Outcome.exists_bind_eq_done] at ih ⊢
      simp only [ih, List.forall_mem_cons, exists_and_right, acceptConnection_done_iff]

/-- A peer that answers with a second message and stays is registered. -/
example : ∃ members, startAccept Snow.transparent "key" ∅
    [.accepted () "127.0.0.1:50001" ⟨[.frame (.str "<- e, ee, s, es", [])], .silent⟩ true] =
      .done members :=
  ⟨_, rfl⟩

/-- A peer that connects and closes the connection at once. -/
def closesAtOnce : List (Incoming Unit (Serde.Value × List (Bool × Nat))) :=
  [.accepted () "127.0.0.1:50001" ⟨[], .closed⟩ true]

/-- The end of the stream is unwrapped, and the accept loop is gone. -/
theorem startAccept_panics_closesAtOnce :
    startAccept Snow.transparent "key" ∅ closesAtOnce = .panicked :=
  rfl

end FrostFederation.Node
