/-
# FrostFederation.Federation.Attribution — whose echo a copy of a broadcast is.

Three places name a peer.  A node REGISTERS a connection under the socket address of the other side,
and that is the key under which `send_message` waits for the peer's echo.  A node STAMPS its own
broadcasts with its bind address.  And a node that re-broadcasts a message FORWARDS it with the
sender id it came with.

The third decides: every copy of a broadcast anywhere carries the bind address of the node that
originated it (`originated_of_run`).  So the copy node B sends to node A counts as B's echo exactly
when the originator's bind address happens to be the address under which A registered its connection
with B; that B sent it plays no role.
-/
import FrostFederation.Federation.Network

namespace FrostFederation.Federation

open FrostFederation.Lib
open FrostFederation.Protocol
open FrostFederation.EchoBroadcast (EchoBroadcastActor)

variable {N E : Type} [DecidableEq N] [DecidableEq E] {F : Federation N E}
  {calculateHash : String → MessageId}

/-! ## Where a broadcast comes from -/

/-- Node `o` has originated `data` in the run. -/
def Originated (F : Federation N E) (calculateHash : String → MessageId) (tr : List (Event N E))
    (o : N) (data : Message) : Prop :=
  ∃ ev message nanos, .node o ev ∈ tr ∧ ev.input = .originate message nanos ∧
    data = F.package calculateHash o message nanos

omit [DecidableEq N] [DecidableEq E] in
theorem Originated.mono {tr tr' : List (Event N E)} {o : N} {data : Message}
    (h : F.Originated calculateHash tr o data) (hsub : tr ⊆ tr') :
    F.Originated calculateHash tr' o data := by
  obtain ⟨ev, message, nanos, hmem, hinput, heq⟩ := h
  exact ⟨ev, message, nanos, hsub hmem, hinput, heq⟩

omit [DecidableEq N] [DecidableEq E] in
/-- What is originated carries the bind address of its originator. -/
theorem Originated.getSenderId {tr : List (Event N E)} {o : N} {data : Message}
    (h : F.Originated calculateHash tr o data) : data.getSenderId = F.bindAddress o := by
  obtain ⟨ev, message, nanos, -, -, rfl⟩ := h
  rfl

/-- **Every broadcast in the federation was originated by one of its nodes**, wherever it is and
whoever sends it. -/
theorem originated_of_run {tr : List (Event N E)} {s : State N E}
    (hrun : (F.machine calculateHash).Run F.initial tr s) :
    F.Everywhere (fun _ data => ∃ o, F.Originated calculateHash tr o data) s ∧
      ∀ n nodeEv, .node n nodeEv ∈ tr → Node.Emits
        (fun data => ∃ o, F.Originated calculateHash tr o data) (F.Registered n) nodeEv := by
  refine hrun.invariant (I := fun tr s =>
    F.Everywhere (fun _ data => ∃ o, F.Originated calculateHash tr o data) s ∧
      ∀ n nodeEv, .node n nodeEv ∈ tr → Node.Emits
        (fun data => ∃ o, F.Originated calculateHash tr o data) (F.Registered n) nodeEv)
    ⟨everywhere_initial, by simp⟩ ?_
  intro tr s input s' ev _ ih hs _
  have hgrow : ∀ data, (∃ o, F.Originated calculateHash tr o data) →
      ∃ o, F.Originated calculateHash (tr ++ [ev]) o data :=
    fun data h => h.imp fun o ho => ho.mono (List.subset_append_left _ _)
  obtain ⟨hnext, hemits⟩ := everywhere_step
    (P := fun _ data => ∃ o, F.Originated calculateHash (tr ++ [ev]) o data)
    (by
      rintro n b ⟨o, ev', message, nanos, -, -, heq⟩
      rw [heq]
      simp [package, Message.getMessageId])
    (fun _ _ h => h) (ih.1.mono fun _ => hgrow) (moved_of_step hs)
    (by
      rintro n nodeEv message nanos rfl hinput
      exact ⟨n, nodeEv, message, nanos, by simp, hinput, rfl⟩)
  refine ⟨hnext, ?_⟩
  intro n nodeEv hmem
  rcases List.mem_append.mp hmem with hold | hlast
  · exact (ih.2 n nodeEv hold).mono hgrow
  · exact hemits n nodeEv (List.mem_singleton.mp hlast).symm

/-! ## Attribution -/

/-- The copy `data` counts as the echo of the peer behind endpoint `e`: its sender id is the address
under which the owner of `e` registered the connection, and processing it as an echo turns exactly
that peer's entry to true. -/
structure Attributed (F : Federation N E) (data : Message) (e : E) : Prop where
  sender : data.getSenderId = F.address e
  echo : ∀ (a a' : EchoBroadcastActor E) effects m, data.getMessageId = some m →
    a.handleReceivedEcho data = some (a', effects) →
    ∀ x, a'.echo m x = if x = F.address e then some true else a.echo m x

omit [DecidableEq N] [DecidableEq E] in
/-- The sender id decides. -/
theorem attributed_iff_getSenderId (data : Message) (e : E) :
    F.Attributed data e ↔ data.getSenderId = F.address e := by
  constructor
  · exact fun h => h.sender
  · intro hsender
    refine ⟨hsender, ?_⟩
    intro a a' effects m hm hh x
    obtain ⟨m', hm', hecho⟩ := EchoBroadcastActor.handleReceivedEcho_echo hh
    obtain rfl : m = m' := Option.some.inj (hm.symm.trans hm')
    rw [hecho, hsender]
    simp

/-- An event loop re-broadcasts `data` over endpoint `e`: it hands `data` to the actor with a member
map that names `e`. -/
def Rebroadcasts (nodeEv : Node.Event E) (data : Message) (e : E) : Prop :=
  ∃ loop nanos members tx x, nodeEv.input = .post (.eventLoop loop) nanos ∧
    nodeEv.handed = some (.send data members tx) ∧ members.lookup x = some e

/-- **A copy counts as the echo of the node that sent it exactly when the ORIGINATOR's bind address
is the key of that connection.**  Here `n` re-broadcasts over its endpoint `e`, and the owner of the
other end has registered the connection under `F.address (F.peer e)`. -/
theorem attributed_iff {tr : List (Event N E)} {s : State N E}
    (hrun : (F.machine calculateHash).Run F.initial tr s) {n : N} {nodeEv : Node.Event E}
    (hmem : .node n nodeEv ∈ tr) {data : Message} {e : E} (hcopy : Rebroadcasts nodeEv data e) :
    F.owner e = n ∧
      (∀ x, (s.node (F.owner (F.peer e))).members.lookup x = some (F.peer e) →
        x = F.address (F.peer e)) ∧
      ∃ o, F.Originated calculateHash tr o data ∧
        (F.Attributed data (F.peer e) ↔ F.bindAddress o = F.address (F.peer e)) := by
  obtain ⟨loop, nanos, members, tx, x, -, hhanded, hl⟩ := hcopy
  obtain ⟨data', members', tx', heq, ⟨o, ho⟩, hregistered⟩ :=
    ((originated_of_run hrun).2 n nodeEv hmem).handed _ hhanded
  obtain ⟨rfl, rfl, -⟩ := EchoBroadcast.EchoBroadcastMessage.send.inj heq
  refine ⟨(hregistered x e hl).1, ?_, o, ho, ?_⟩
  · intro key hkey
    exact ((originated_of_run hrun).1.members _ key _ hkey).2.symm
  · rw [attributed_iff_getSenderId, ho.getSenderId]

/-! ## A broadcast of the second node comes back to it -/

/-- The last copy of that run is attributed: its originator is the second node, and the first has it
registered under its bind address. -/
theorem attributed_iff_echoedBack :
    ∃ tr s nodeEv data, (seeded.machine hashLength).Run seeded.initial tr s ∧
      .node true nodeEv ∈ tr ∧ Rebroadcasts nodeEv data true ∧ seeded.Attributed data false := by
  have hexec : (seeded.machine hashLength).exec seeded.initial (bothConnect ++ echoedBack) =
    some (_, _) := rfl
  obtain ⟨tr, s, nodeEv, hrun, hmem, hcopy⟩ : ∃ tr s nodeEv,
      (seeded.machine hashLength).Run seeded.initial tr s ∧ .node true nodeEv ∈ tr ∧
      Rebroadcasts nodeEv (seeded.package hashLength true "hello from round one package" 1) true := by
    refine ⟨_, _, _, Machine.run_of_exec hexec, List.mem_of_mem_getLast? rfl, ?_⟩
    exact ⟨true, 0, _, _, "127.0.0.1:50001", rfl, rfl, rfl⟩
  obtain ⟨-, -, o, ho, hiff⟩ := attributed_iff hrun hmem hcopy
  exact ⟨tr, s, nodeEv, _, hrun, hmem, hcopy, hiff.mpr ho.getSenderId.symm⟩

/-- **A copy that is nobody's echo.**  The first node re-broadcasts the package of the second back to
it; the second has registered the first under the port it connected from, and the copy carries the
second's own bind address. -/
theorem unattributed_echoedBack :
    ∃ tr s nodeEv data, (seeded.machine hashLength).Run seeded.initial tr s ∧
      .node false nodeEv ∈ tr ∧ Rebroadcasts nodeEv data false ∧
      (s.node true).members.lookup "127.0.0.1:50001" = some true ∧
      data.getSenderId = "127.0.0.1:6681" ∧ ¬ seeded.Attributed data true := by
  have hexec : (seeded.machine hashLength).exec seeded.initial (bothConnect ++ echoedBack.take 6) =
    some (_, _) := rfl
  refine ⟨_, _, _, seeded.package hashLength true "hello from round one package" 1,
    Machine.run_of_exec hexec, List.mem_of_mem_getLast? rfl,
    ⟨false, 0, _, _, "127.0.0.1:6681", rfl, rfl, rfl⟩, rfl, rfl, ?_⟩
  intro hattributed
  exact absurd hattributed.sender (by decide)

end FrostFederation.Federation
