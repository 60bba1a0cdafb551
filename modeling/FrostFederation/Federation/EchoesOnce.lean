/-
# FrostFederation.Federation.EchoesOnce — how often a node echoes a broadcast.

Nothing remembers which ids a node has already echoed: an event loop hands every copy it takes to
the actor.  So a broadcast that has one connection to travel over comes back to its originator, who
echoes it again.  Each node echoes a broadcast at most once exactly when the originator has NO
connection at all: then the broadcast never leaves it, and its one Send is the
only one, because every call of the main task posts once.
-/
import FrostFederation.Federation.Round
import Mathlib.Algebra.Order.BigOperators.Group.Finset
import Mathlib.Data.Fintype.BigOperators

namespace FrostFederation

open FrostFederation.Lib
open FrostFederation.Protocol

variable {E : Type} [DecidableEq E] {calculateHash : String → MessageId}

/-! ## The Sends a node without connections still owes -/

namespace Node

/-- A call that is about to post a Send with id `m`. -/
def Phase.posts (m : MessageId) (phase : Phase E) : Bool :=
  match phase.send? with
  | some (.posting data _) => data.getMessageId = some m
  | _ => false

/-- The calls of the main task that are about to post a Send with id `m`. -/
def owed (m : MessageId) (node : Node E) : Finset Nat :=
  (Finset.range node.services).filter fun i => (node.jobs (.service i)).posts m

/-- The step originates a broadcast with id `m`. -/
def Event.originatesId (calculateHash : String → MessageId) (gen : MessageIdGenerator) (m : MessageId)
    (ev : Event E) : Bool :=
  match ev.input with
  | .originate _ nanos => gen.next calculateHash nanos = m
  | _ => false

/-- A node whose broadcasts all come from its main task. -/
structure Alone (node : Node E) : Prop where
  loops : ∀ e, node.jobs (.eventLoop e) = .absent
  calls : ∀ i, node.services ≤ i → node.jobs (.service i) = .absent
  identified : ∀ j message send, node.jobs j = .echoing message send →
    (Message.broadcastMessage message).getMessageId ≠ none

/-- What a step adds to the Sends that are handed over or owed, it has originated. -/
structure Accounted (calculateHash : String → MessageId) (m : MessageId) (node : Node E) (ev : Event E)
    (node' : Node E) : Prop where
  count : (ev.handsSend m).toNat + (node'.owed m).card ≤
    (node.owed m).card + (ev.originatesId calculateHash node.messageIdGenerator m).toNat
  calls : ∀ i, node'.services ≤ i → node'.jobs (.service i) = .absent

omit [DecidableEq E] in
/-- A step that leaves the calls of the main task alone and hands nothing over. -/
theorem accounted_of_same {m : MessageId} {node node' : Node E} {ev : Event E} (h : Alone node)
    (hhanded : ev.handed = none) (hservices : node'.services = node.services)
    (hjobs : ∀ i, node'.jobs (.service i) = node.jobs (.service i)) :
    Accounted calculateHash m node ev node' where
  count := by
    have howed : node'.owed m = node.owed m := by
      simp only [owed, hservices, hjobs]
    simp [Event.handsSend, hhanded, howed]
  calls := by
    intro i hi
    rw [hjobs]
    exact h.calls i (hservices ▸ hi)

omit [DecidableEq E] in
/-- A task in a call of `EchoBroadcastHandle::send` is a call the main task has made. -/
theorem Alone.service {node : Node E} (h : Alone node) {j : Job E} {send : SendPhase E}
    (hphase : (node.jobs j).send? = some send) : ∃ i, i < node.services ∧ j = .service i := by
  cases j with
  | eventLoop e => simp [h.loops e, Phase.send?] at hphase
  | service i =>
      refine ⟨i, ?_, rfl⟩
      by_contra hi
      simp [h.calls i (Nat.le_of_not_lt hi), Phase.send?] at hphase

/-- A call that has gone on owes nothing any more. -/
theorem owed_update {m : MessageId} {node node' : Node E} {i : Nat} {phase : Phase E}
    (hposts : phase.posts m = false) (hservices : node'.services = node.services)
    (hjobs : node'.jobs = Function.update node.jobs (.service i) phase) :
    node'.owed m = (node.owed m).erase i := by
  ext i'
  simp only [owed, hservices, hjobs, Finset.mem_filter, Finset.mem_range, Finset.mem_erase]
  by_cases hi : i' = i
  · subst hi
    simp [hposts]
  · simp [hi]

theorem calls_update {node node' : Node E} (h : Alone node) {i : Nat} (hi : i < node.services)
    {phase : Phase E} (hservices : node'.services = node.services)
    (hjobs : node'.jobs = Function.update node.jobs (.service i) phase) (i' : Nat)
    (hi' : node'.services ≤ i') : node'.jobs (.service i') = .absent := by
  rw [hservices] at hi'
  have hne : Job.service i' ≠ Job.service (E := E) i := by
    simp only [ne_eq, Job.service.injEq]
    omega
  rw [hjobs, Function.update_of_ne hne]
  exact h.calls i' hi'

/-- The main task makes a call, which owes a Send if the id is `m`. -/
theorem accounted_originated {m : MessageId} {node : Node E} (h : Alone node) (message : String)
    (nanos : Nat) :
    Accounted calculateHash m node (.quiet (.originate message nanos))
      { node with
        jobs := Function.update node.jobs (.service node.services)
          (.serving (.posting (newPackage calculateHash node message nanos) node.members))
        services := node.services + 1 } where
  count := by
    have hold : ∀ i ∈ Finset.range node.services,
        (((Function.update node.jobs (.service node.services)
          (.serving (.posting (newPackage calculateHash node message nanos) node.members)))
            (.service i)).posts m = true ↔ (node.jobs (.service i)).posts m = true) := by
      intro i hi
      have hne : Job.service i ≠ Job.service (E := E) node.services := by
        simp only [ne_eq, Job.service.injEq]
        exact Nat.ne_of_lt (Finset.mem_range.mp hi)
      rw [Function.update_of_ne hne]
    simp only [owed, Finset.range_add_one, Finset.filter_insert, Function.update_self,
      Finset.filter_congr hold]
    by_cases hm : node.messageIdGenerator.next calculateHash nanos = m
    · have hcard := Finset.card_insert_le node.services
        ((Finset.range node.services).filter fun i => (node.jobs (.service i)).posts m)
      simpa [Phase.posts, Phase.send?, newPackage, Message.getMessageId, hm, Event.handsSend,
        Event.originatesId, Event.quiet] using hcard
    · simp [Phase.posts, Phase.send?, newPackage, Message.getMessageId, hm, Event.handsSend,
        Event.originatesId, Event.quiet]
  calls := by
    intro i hi
    simp only at hi
    have hne : Job.service i ≠ Job.service (E := E) node.services := by
      simp only [ne_eq, Job.service.injEq]
      omega
    simp only [Function.update_of_ne hne]
    exact h.calls i (by omega)

theorem accounted_of_change {m : MessageId} {node node' : Node E} {ev : Event E} (h : Alone node)
    (hchange : Change calculateHash node ev node') : Accounted calculateHash m node ev node' := by
  cases hchange with
  | control hjobs _ _ _ _ _ hservices _ _ hhanded =>
      refine accounted_of_same h hhanded hservices ?_
      intro i
      rcases hjobs (.service i) with heq | ⟨e, heq, -⟩
      · exact heq
      · cases heq
  | arrived hev hnode =>
      subst hev hnode
      exact accounted_of_same h rfl rfl fun _ => rfl
  | answered _ _ _ hhanded _ hnode =>
      subst hnode
      exact accounted_of_same h hhanded rfl fun _ => rfl
  | @taken e _ _ _ _ hphase _ _ =>
      -- a node alone has no event loop
      cases (h.loops e).symm.trans hphase
  | @originated message nanos hev hnode =>
      subst hev hnode
      exact accounted_originated h message nanos
  | @posted j nanos data members hinput hphase hframes hhanded hprocessed hnode =>
      obtain ⟨i, hi, rfl⟩ := h.service hphase
      have hposts : ((node.jobs (.service i)).setSend (.waiting node.opened)).posts m = false := by
        cases hp : node.jobs (.service i) <;> simp [Phase.setSend, Phase.posts, Phase.send?]
      have howed : node'.owed m = (node.owed m).erase i :=
        owed_update hposts (by rw [hnode]) (by rw [hnode])
      refine ⟨?_, calls_update h hi (by rw [hnode]) (by rw [hnode])⟩
      by_cases hm : data.getMessageId = some m
      · -- the Send that is handed over is no longer owed
        have hposted : (node.jobs (.service i)).posts m = true := by simp [Phase.posts, hphase, hm]
        have hmem : i ∈ node.owed m :=
          Finset.mem_filter.mpr ⟨Finset.mem_range.mpr hi, hposted⟩
        have hpos : 0 < (node.owed m).card := Finset.card_pos.mpr ⟨i, hmem⟩
        have hhands : ev.handsSend m = true := by simp [Event.handsSend, hhanded, hm]
        rw [howed, Finset.card_erase_of_mem hmem, hhands]
        simp only [Bool.toNat_true]
        omega
      · have hle := Finset.card_erase_le (s := node.owed m) (a := i)
        have hhands : ev.handsSend m = false := by simp [Event.handsSend, hhanded, hm]
        rw [howed, hhands]
        simp only [Bool.toNat_false]
        omega
  | @sendReturned j nanos send result hphase hresult hinput hframes hhanded hprocessed hnode =>
      obtain ⟨i, hi, rfl⟩ := h.service hphase
      obtain ⟨r, hr⟩ := sendReturned_of_identified calculateHash
        (h.identified (.service i)) hphase nanos result
      have hjobs : node'.jobs = Function.update node.jobs (.service i) (.returned r) := by
        rw [hnode, hr]
        rfl
      have hservices : node'.services = node.services := by rw [hnode]; rfl
      refine ⟨?_, calls_update h hi hservices hjobs⟩
      have hle := Finset.card_erase_le (s := node.owed m) (a := i)
      rw [owed_update (by simp [Phase.posts, Phase.send?]) hservices hjobs]
      simp only [Event.handsSend, hhanded, Bool.toNat_false]
      omega
  | @handled reach command rest hlive hqueue hev hnode =>
      obtain ⟨huntouched, -⟩ := handleCommand_cases node reach command rest
      subst hev hnode
      exact accounted_of_same h rfl huntouched.services fun i => by rw [huntouched.jobs]

end Node

/-! ## At most once -/

namespace Federation

variable {N : Type} [DecidableEq N] {F : Federation N E}

/-- The originations of a run whose id is `m`. -/
def originationsOf (calculateHash : String → MessageId) (m : MessageId) (tr : List (Event N E)) :
    List (N × String × Nat) :=
  (originations tr).filter fun r => MessageIdGenerator.next calculateHash ⟨"localhost"⟩ r.2.2 = m

/-- Whatever else is broadcast, the id `m` is given out once, to a broadcast of node `o`. -/
def OriginatedOnce (calculateHash : String → MessageId) (o : N) (m : MessageId)
    (tr : List (Event N E)) : Prop :=
  ∃ message nanos, originationsOf calculateHash m tr = [(o, message, nanos)]

/-- In every run every node hands its actor at most one Send of a broadcast of `o`, and the
federation no more of them than it has nodes. -/
def EchoesOnce [Fintype N] (F : Federation N E) (calculateHash : String → MessageId) (o : N) : Prop :=
  ∀ tr s m, (F.machine calculateHash).Run F.initial tr s → OriginatedOnce calculateHash o m tr →
    (∀ n, handedSends n m tr ≤ 1) ∧ ∑ n, handedSends n m tr ≤ Fintype.card N

/-! ### With a connection, the broadcast comes back -/

/-- Both ends of one connection are connected and registered. -/
def pairConnected (F : Federation N E) (e : E) : State N E := F.connect (F.connect F.initial e) (F.peer e)

/-- A new node that has made one connection. -/
def onePeer (F : Federation N E) (e : E) : Node E :=
  ((Node.new.withBindAddress (F.bindAddress (F.owner e))).startConnectionEventLoop e
    (F.address e)).addMember (F.address e) e

omit [DecidableEq N] in
theorem ready_onePeer (e : E) : (F.onePeer e).Ready e where
  inbox := rfl
  closed := rfl
  address := by simp [onePeer, Node.addMember, Node.startConnectionEventLoop]
  loop := Function.update_self _ _ _
  member := ⟨F.address e, AList.lookup_insert _⟩
  queue := rfl
  actor := rfl

theorem pairConnected_node (e : E) : (F.pairConnected e).node (F.owner e) = F.onePeer e := by
  simp [pairConnected, connect, (F.owner_peer e).symm, initial, onePeer]

theorem pairConnected_node_peer (e : E) :
    (F.pairConnected e).node (F.owner (F.peer e)) = F.onePeer (F.peer e) := by
  simp [pairConnected, connect, F.owner_peer e, initial, onePeer]

theorem run_pairConnected (calculateHash : String → MessageId) (e : E) :
    ∃ tr, (F.machine calculateHash).Run F.initial tr (F.pairConnected e) ∧ originations tr = [] := by
  obtain ⟨tr₁, hrun₁, hnone₁⟩ :=
    run_connect (F := F) calculateHash (s := F.initial) (e := e) rfl
  have habsent : ((F.connect F.initial e).node (F.owner (F.peer e))).jobs
      (.eventLoop (F.peer e)) = .absent := by
    simp [connect, F.owner_peer e, initial, Node.withBindAddress, Node.new]
  obtain ⟨tr₂, hrun₂, hnone₂⟩ := run_connect calculateHash habsent
  refine ⟨tr₁ ++ tr₂, hrun₁.append hrun₂, ?_⟩
  rw [originations, List.filterMap_append]
  exact List.append_eq_nil_iff.mpr ⟨hnone₁, hnone₂⟩

/-- A node with a connection can be made to hand over two Sends of its own broadcast. -/
theorem echoes_twice (calculateHash : String → MessageId) (e : E) :
    ∃ tr s m, (F.machine calculateHash).Run F.initial tr s ∧
      OriginatedOnce calculateHash (F.owner e) m tr ∧ 2 ≤ handedSends (F.owner e) m tr := by
  obtain ⟨tr₀, hrun₀, hnone⟩ := run_pairConnected (F := F) calculateHash e
  obtain ⟨tr, s, hrun, horiginations, htwice, -⟩ := round_trip (F := F) (s := F.pairConnected e)
    calculateHash (fun _ => rfl) (by rw [pairConnected_node]; exact ready_onePeer e)
    (by rw [pairConnected_node_peer]; exact ready_onePeer (F.peer e))
    "hello from round one package" 0
  have hgen : ((F.pairConnected e).node (F.owner e)).messageIdGenerator = ⟨"localhost"⟩ := by
    rw [pairConnected_node]
    rfl
  have hall : originations (tr₀ ++ tr) = [(F.owner e, "hello from round one package", 0)] := by
    rw [originations, List.filterMap_append]
    exact (congrArg₂ (· ++ ·) hnone horiginations).trans (List.nil_append _)
  rw [hgen] at htwice
  refine ⟨tr₀ ++ tr, s, MessageIdGenerator.next calculateHash ⟨"localhost"⟩ 0,
    hrun₀.append hrun.run, ⟨"hello from round one package", 0, ?_⟩, le_trans htwice ?_⟩
  · rw [originationsOf, hall]
    simp
  · rw [handedSends, handedSends, List.countP_append]
    exact Nat.le_add_left _ _

/-! ### Without one, it stays where it is -/

/-- A broadcast with id `m` is nowhere but at node `o`. -/
def StaysAt (o : N) (m : MessageId) (n : N) (data : Message) : Prop :=
  data.getMessageId ≠ none ∧ (n ≠ o → data.getMessageId ≠ some m)

/-- The books of a run in which only node `o` originates the id `m`. -/
structure Books (F : Federation N E) (calculateHash : String → MessageId) (o : N) (m : MessageId)
    (tr : List (Event N E)) (s : State N E) : Prop where
  everywhere : F.Everywhere (StaysAt o m) s
  others : ∀ n, n ≠ o → handedSends n m tr = 0
  loops : ∀ e, (s.node o).jobs (.eventLoop e) = .absent
  calls : ∀ i, (s.node o).services ≤ i → (s.node o).jobs (.service i) = .absent
  count : handedSends o m tr + ((s.node o).owed m).card ≤ (originationsOf calculateHash m tr).length

omit [DecidableEq E] in
theorem Books.alone {o : N} {m : MessageId} {tr : List (Event N E)} {s : State N E}
    (h : F.Books calculateHash o m tr s) : (s.node o).Alone where
  loops := h.loops
  calls := h.calls
  identified := fun _ _ _ hphase => ((h.everywhere.nodes o).echoing hphase).1

omit [DecidableEq N] [DecidableEq E] in
theorem originationsOf_snoc (m : MessageId) (tr : List (Event N E)) (n : N) (ev : Node.Event E) :
    (originationsOf calculateHash m (tr ++ [.node n ev])).length =
      (originationsOf calculateHash m tr).length +
        (ev.originatesId calculateHash ⟨"localhost"⟩ m).toNat := by
  have hone : (originationsOf calculateHash m [Event.node n ev]).length =
      (ev.originatesId calculateHash ⟨"localhost"⟩ m).toNat := by
    unfold originationsOf originations Node.Event.originatesId
    cases hinput : ev.input with
    | originate message nanos =>
        by_cases hm : MessageIdGenerator.next calculateHash ⟨"localhost"⟩ nanos = m <;>
          simp [Event.origination?, hinput, hm]
    | _ => simp [Event.origination?, hinput]
  rw [← hone]
  simp [originationsOf, originations, List.filterMap_append]

omit [DecidableEq E] in
/-- A Send that is handed over at another node has another id. -/
theorem hands_of_emits {o n : N} (hn : n ≠ o) {m : MessageId} {ev : Event N E}
    (hemits : ∀ n nodeEv, ev = .node n nodeEv →
      Node.Emits (StaysAt o m n) (F.Registered n) nodeEv) : ev.hands n m = false := by
  cases ev with
  | lost e => rfl
  | node n' nodeEv =>
      by_contra hhands
      simp only [Event.hands, Bool.not_eq_false, Bool.and_eq_true, decide_eq_true_eq] at hhands
      obtain ⟨rfl, hhands⟩ := hhands
      obtain ⟨data, members, tx, hhanded, hm⟩ := Node.handsSend_of_handed hhands
      obtain ⟨data', members', tx', heq, hP, -⟩ := (hemits n' nodeEv rfl).handed _ hhanded
      obtain ⟨rfl, -⟩ := EchoBroadcast.EchoBroadcastMessage.send.inj heq
      exact hP.2 hn hm

theorem books_step {o : N} (hnone : ∀ e, F.owner e ≠ o) {m : MessageId} {tr : List (Event N E)}
    {s s' : State N E} {input : Input N E} {ev : Event N E} (h : F.Books calculateHash o m tr s)
    (hs : (F.machine calculateHash).step s input = some (s', ev))
    (honly : ∀ r, ev.origination? = some r →
      MessageIdGenerator.next calculateHash ⟨"localhost"⟩ r.2.2 = m → r.1 = o) :
    F.Books calculateHash o m (tr ++ [ev]) s' := by
  obtain ⟨hnext, hemits⟩ := everywhere_step (fun _ _ hP => hP.1)
    (fun e data hP => ⟨hP.1, fun _ => hP.2 (hnone e)⟩) h.everywhere (moved_of_step hs)
    (by
      rintro n nodeEv message nanos rfl hinput
      refine ⟨by simp [package, Message.getMessageId], fun hn hm => hn ?_⟩
      refine honly (n, message, nanos) (by simp [Event.origination?, hinput]) ?_
      simpa [package, Message.getMessageId] using hm)
  have hothers : ∀ n, n ≠ o → handedSends n m (tr ++ [ev]) = 0 := by
    intro n hn
    rw [handedSends_snoc, h.others n hn, hands_of_emits hn hemits]
    rfl
  rcases node_of_moved (moved_of_step hs) with ⟨e, rfl, hnode⟩ |
    ⟨n, input, node, nodeEv, rfl, hstep, hnode, hconnect⟩
  · refine ⟨hnext, hothers, by rw [hnode]; exact h.loops, by rw [hnode]; exact h.calls, ?_⟩
    have hcount := h.count
    have hle : (originationsOf calculateHash m tr).length ≤
        (originationsOf calculateHash m (tr ++ [.lost e])).length := by
      simp [originationsOf, originations]
    rw [handedSends_snoc, hnode]
    simp only [Event.hands, Bool.toNat_false]
    omega
  · by_cases hn : n = o
    · subst hn
      have hself : s'.node n = node := by rw [hnode]; exact Function.update_self _ _ _
      have haccounted := Node.accounted_of_change (m := m) h.alone (Node.change_of_step hstep)
      refine ⟨hnext, hothers, ?_, by rw [hself]; exact haccounted.calls, ?_⟩
      · intro e
        rw [hself]
        rcases (Node.kept_of_step hstep).absent e (h.loops e) with habsent | ⟨x, hx⟩
        · exact habsent
        · exact absurd (hconnect e x hx) (hnone e)
      · have hcount := h.count
        have hstepcount := haccounted.count
        rw [h.everywhere.messageIdGenerator n] at hstepcount
        have hhands : (Event.node n nodeEv).hands n m = nodeEv.handsSend m := by
          simp [Event.hands]
        rw [handedSends_snoc, originationsOf_snoc, hself, hhands]
        omega
    · have hsame : s'.node o = s.node o := by
        rw [hnode]
        exact Function.update_of_ne (Ne.symm hn) _ _
      refine ⟨hnext, hothers, by rw [hsame]; exact h.loops, by rw [hsame]; exact h.calls, ?_⟩
      have hcount := h.count
      have hhands : (Event.node n nodeEv).hands o m = false := by
        simp [Event.hands, hn]
      rw [handedSends_snoc, originationsOf_snoc, hsame, hhands]
      simp only [Bool.toNat_false]
      omega

/-- **Each node echoes a broadcast at most once exactly when its originator has no connection.** -/
theorem echoesOnce_iff [Fintype N] (o : N) :
    F.EchoesOnce calculateHash o ↔ ∀ e, F.owner e ≠ o := by
  constructor
  · rintro honce e rfl
    obtain ⟨tr, s, m, hrun, horiginated, htwice⟩ := echoes_twice (F := F) calculateHash e
    have hle := (honce tr s m hrun horiginated).1 (F.owner e)
    omega
  · intro hnone tr s m hrun horiginated
    obtain ⟨message, nanos, hlist⟩ := horiginated
    have honly : ∀ ev ∈ tr, ∀ r, ev.origination? = some r →
        MessageIdGenerator.next calculateHash ⟨"localhost"⟩ r.2.2 = m → r.1 = o := by
      intro ev hev r hr hm
      have hmem : r ∈ originationsOf calculateHash m tr :=
        List.mem_filter.mpr ⟨List.mem_filterMap.mpr ⟨ev, hev, hr⟩, by simpa using hm⟩
      rw [hlist] at hmem
      rw [List.mem_singleton.mp hmem]
    have hbooks : F.Books calculateHash o m tr s := by
      have howed : (F.initial.node o).owed m = ∅ := rfl
      refine (Machine.RunWith.guarded hrun honly).invariant (I := F.Books calculateHash o m)
        ⟨everywhere_initial, fun _ _ => rfl, fun _ => rfl, fun _ _ => rfl, by
          rw [howed]; exact Nat.zero_le _⟩ ?_
      exact fun _ ih hs hG => books_step hnone ih hs hG
    have hmost : ∀ n, handedSends n m tr ≤ 1 := by
      intro n
      by_cases hn : n = o
      · have hcount := hbooks.count
        rw [hlist] at hcount
        rw [hn]
        exact (Nat.le_add_right _ _).trans hcount
      · rw [hbooks.others n hn]
        exact Nat.zero_le 1
    refine ⟨hmost, ?_⟩
    calc ∑ n, handedSends n m tr ≤ ∑ _n : N, 1 := Finset.sum_le_sum fun n _ => hmost n
      _ = Fintype.card N := by simp

/-! ### Two nodes -/

/-- **An id that is echoed twice**: the second of two nodes hands over its own broadcast, and then
the copy of it that the first sends back. -/
theorem echoesTwice_echoedBack :
    ∃ tr s m, (seeded.machine hashLength).Run seeded.initial tr s ∧
      OriginatedOnce hashLength true m tr ∧ handedSends true m tr = 2 := by
  have hexec : (seeded.machine hashLength).exec seeded.initial (bothConnect ++ echoedBack) =
    some (_, _) := rfl
  refine ⟨_, _, MessageIdGenerator.next hashLength ⟨"localhost"⟩ 1, Machine.run_of_exec hexec,
    ⟨"hello from round one package", 1, ?_⟩, ?_⟩
  · rfl
  · rfl

end Federation

end FrostFederation
