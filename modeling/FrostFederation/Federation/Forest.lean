/-
# FrostFederation.Federation.Forest — where the connections do not go around, every broadcast ends.

`Flood` says what a run has forwarded at least; `Paced` is the other half of the ledger and says what it
has forwarded at most.  Over a connection come no more copies than the node at its other end has handled
Sends; a node hands over what its event loops forward, and one Send for each package it originates; and
of all these at most every other one is forwarded by the same event loop.

So the copies that come in over a connection are at most twice those that came in over the connections
beyond it, and twice the packages originated, and one more.  The copy that goes back to where it came from
is counted among them.  In a federation without cycles there is less and less beyond a connection, so this
bounds what is forwarded over it, in every run (`handed_le_of_acyclic`).
-/
import FrostFederation.Federation.Cycle
import FrostFederation.Node.Turns
import Mathlib.Data.Fintype.Option

namespace FrostFederation

open FrostFederation.Lib
open FrostFederation.Protocol

variable {E : Type} [DecidableEq E] {calculateHash : String → MessageId}

namespace Federation

variable {N : Type} [DecidableEq N] {F : Federation N E} {P : Message → Prop}

/-! ## Who hands Sends over -/

/-- The task of node `n` that hands a Send over. -/
def Event.poster? (n : N) : Event N E → Option (Node.Job E)
  | .node n' ev => if n' = n then ev.poster? else none
  | .lost _ => none

/-- The tasks of node `n` that have handed Sends over, one after the other. -/
def posters (n : N) (tr : List (Event N E)) : List (Node.Job E) := tr.filterMap (Event.poster? n)

omit [DecidableEq E] in
theorem posters_snoc (n n' : N) (tr : List (Event N E)) (nodeEv : Node.Event E) :
    posters n' (tr ++ [.node n nodeEv]) =
      posters n' tr ++ (if n = n' then nodeEv.poster? else none).toList := by
  rw [posters, List.filterMap_append]
  rfl

theorem forwarded_eq_count (e : E) (tr : List (Event N E)) :
    F.forwarded e tr = (posters (F.owner e) tr).count (.eventLoop e) := by
  rw [forwarded, posters, List.count, List.countP_filterMap]
  refine List.countP_congr fun ev _ => ?_
  cases ev with
  | lost _ => simp [Event.forwardsOver, Event.poster?]
  | node n nodeEv =>
      by_cases hn : n = F.owner e
      · cases hposter : nodeEv.poster? <;>
          simp [Event.forwardsOver, Event.poster?, Node.forwards_eq_poster, hn, hposter]
      · simp [Event.forwardsOver, Event.poster?, hn]

/-! ## What goes over the links -/

omit [DecidableEq N] in
theorem broadcasts_bound (nodeEv : Node.Event E) (e : E) :
    Node.broadcasts (F.bound nodeEv.frames e) = nodeEv.copies (F.peer e) := by
  have hpeer : ∀ e', F.peer e' = e ↔ e' = F.peer e := by
    intro e'
    constructor
    · rintro rfl
      rw [F.peer_peer]
    · rintro rfl
      rw [F.peer_peer]
  simp only [bound, Node.Event.copies, hpeer]

/-- What is on the links comes from the nodes, and goes to them. -/
theorem links_of_step {s s' : State N E} {input : Input N E} {n : N} {nodeEv : Node.Event E}
    (hs : (F.machine calculateHash).step s input = some (s', .node n nodeEv)) (e : E) :
    Node.broadcasts (s'.link e) + (if F.owner e = n then (nodeEv.brings e).toNat else 0) ≤
      Node.broadcasts (s.link e) + nodeEv.copies (F.peer e) := by
  rw [← broadcasts_bound]
  cases moved_of_step hs with
  | lost _ hev _ => cases hev
  | @acted n₁ nodeInput node nodeEv₁ hpermits hstep hev hs' =>
      obtain ⟨rfl, rfl⟩ := Event.node.inj hev
      subst hs'
      have hbrings : nodeEv.brings e = false := by
        have hcaused := (Node.kept_of_step hstep).caused
        unfold Node.Event.brings
        rw [hcaused]
        cases nodeInput <;> simp_all [permits]
      show Node.broadcasts (s.link e ++ F.bound nodeEv.frames e) + _ ≤ _
      rw [broadcasts_append, hbrings]
      simp
  | @delivered e₀ message rest node nodeEv₁ hlink hstep hev hs' =>
      obtain ⟨rfl, rfl⟩ := Event.node.inj hev
      subst hs'
      have hcaused := (Node.kept_of_step hstep).caused
      show Node.broadcasts (Function.update s.link e₀ rest e ++ F.bound nodeEv.frames e) + _ ≤ _
      rw [broadcasts_append]
      by_cases heq : e = e₀
      · subst heq
        rw [Function.update_self, hlink, if_pos rfl, Node.Event.brings, hcaused]
        cases message with
        | unicastMessage u => simp [Node.broadcasts]
        | broadcastMessage b =>
            simp only [Node.broadcasts, List.countP_cons, decide_true, Bool.toNat_true, if_true]
            omega
      · have hbrings : nodeEv.brings e = false := by
          unfold Node.Event.brings
          rw [hcaused]
          cases message <;> simp [Ne.symm heq]
        rw [Function.update_of_ne heq, hbrings]
        simp

theorem owner_of_connect {s s' : State N E} {input : Input N E} {n : N} {nodeEv : Node.Event E}
    (hs : (F.machine calculateHash).step s input = some (s', .node n nodeEv)) {e : E} {x : String}
    (hinput : nodeEv.input = .connect e x) : F.owner e = n := by
  cases moved_of_step hs with
  | lost _ hev _ => cases hev
  | @acted n₁ nodeInput node nodeEv₁ hpermits hstep hev hs' =>
      obtain ⟨rfl, rfl⟩ := Event.node.inj hev
      rw [← (Node.kept_of_step hstep).caused, hinput] at hpermits
      simp only [permits, Bool.and_eq_true, decide_eq_true_eq] at hpermits
      exact hpermits.1
  | @delivered e₀ message rest node nodeEv₁ hlink hstep hev hs' =>
      obtain ⟨rfl, rfl⟩ := Event.node.inj hev
      cases hinput.symm.trans (Node.kept_of_step hstep).caused

/-! ## The ledger -/

/-- The other half of the ledger: what the nodes have forwarded at most. -/
structure Paced (F : Federation N E) (P : Message → Prop) (tr : List (Event N E)) (s : State N E) :
    Prop where
  unseen : ∀ n, (s.node n).Unseen
  members : ∀ n, Node.Exact (fun e => F.owner e = n) F.address (s.node n).members
  carries : ∀ n, (s.node n).Carries P (Node.Exact (fun e => F.owner e = n) F.address)
  foreign : ∀ n e, F.owner e ≠ n → (s.node n).jobs (.eventLoop e) = .absent
  /-- Two for every Send of an event loop, paid from all the Sends of its node. -/
  paid : ∀ e, 2 * F.forwarded e tr + (s.node (F.owner e)).queue.length ≤
    handed (F.owner e) tr + (s.node (F.owner e)).credit e
  /-- No more copies come in over a connection than the other end has handled Sends. -/
  copies : ∀ e, Node.broadcasts (s.link e) + (s.node (F.owner e)).pending e + F.forwarded e tr ≤
    handled (F.owner (F.peer e)) tr
  handed : ∀ n, handed n tr = (posters n tr).length
  loops : ∀ n e, .eventLoop e ∈ posters n tr → F.owner e = n
  services : ∀ n i, .service i ∈ posters n tr → i < (s.node n).services ∧ (s.node n).Spent i
  once : ∀ n i, (posters n tr).count (.service i) ≤ 1
  originated : ∀ n, (s.node n).services ≤ (originations tr).length

section Paced

variable {ids : List MessageId} {tr : List (Event N E)} {s s' : State N E} {n : N}
  {nodeEv : Node.Event E} (hid : ∀ data, P data → data.getMessageId ≠ none)
  (h : F.Flood P ids tr s) (hp : F.Paced P tr s) (hadvanced : F.Advanced calculateHash P s n nodeEv s')

include hid hp hadvanced in
/-- The node that steps writes only to its own connections. -/
theorem exact_carries_step :
    (s'.node n).Carries P (Node.Exact (fun e => F.owner e = n) F.address) ∧
      Node.Emits P (Node.Exact (fun e => F.owner e = n) F.address) nodeEv := by
  obtain ⟨input, hstep⟩ := hadvanced.step
  exact Node.carries_step (fun _ => hid _) (hp.carries n) (Node.change_of_step hstep)
    ⟨hadvanced.calmly.arrive, hadvanced.calmly.originate, fun _ => hp.members n⟩

include h hp hadvanced in
theorem paid_step (e : E) :
    2 * F.forwarded e (tr ++ [.node n nodeEv]) + (s'.node (F.owner e)).queue.length ≤
      handed (F.owner e) (tr ++ [.node n nodeEv]) + (s'.node (F.owner e)).credit e := by
  have hpaid := hp.paid e
  obtain ⟨input, hstep⟩ := hadvanced.step
  simp only [forwarded, handed, countP_snoc] at hpaid ⊢
  by_cases howner : F.owner e = n
  · subst howner
    have hcredit := Node.credit_step (h.up _) (hp.unseen _) rfl hstep hadvanced.calmly (e := e)
    simp only [Event.forwardsOver, Event.handsAt, decide_true, Bool.true_and]
    omega
  · rw [hadvanced.others _ howner]
    simpa [Event.forwardsOver, Event.handsAt, Ne.symm howner] using hpaid

include hid h hp hadvanced in
theorem copies_le_step {fedInput : Input N E}
    (hs : (F.machine calculateHash).step s fedInput = some (s', .node n nodeEv)) (e : E) :
    Node.broadcasts (s'.link e) + (s'.node (F.owner e)).pending e +
        F.forwarded e (tr ++ [.node n nodeEv]) ≤
      handled (F.owner (F.peer e)) (tr ++ [.node n nodeEv]) := by
  have hcopies := hp.copies e
  have hlinks := links_of_step hs e
  obtain ⟨input, hstep⟩ := hadvanced.step
  have hemits := (exact_carries_step hid hp hadvanced).2
  simp only [handled, forwarded, countP_snoc] at hcopies ⊢
  by_cases howner : F.owner e = n
  · -- the node at this end writes nothing to itself
    subst howner
    have hnone : nodeEv.copies (F.peer e) = 0 := Node.copies_of_foreign hemits (F.owner_peer e)
    have hpending := Node.pending_step hid (h.up (F.owner e)) rfl hstep hadvanced.calmly
    rw [if_pos rfl, hnone] at hlinks
    simp only [Event.forwardsOver, decide_true, Bool.true_and]
    omega
  · have hforwards : Event.forwardsOver F e (.node n nodeEv) = false := by
      simp [Event.forwardsOver, Ne.symm howner]
    rw [hadvanced.others _ howner, hforwards]
    rw [if_neg howner] at hlinks
    by_cases hpeer : n = F.owner (F.peer e)
    · have hone := Node.copies_le (hp.carries n) hstep (F.peer e)
      simp only [Event.handlesAt, hpeer, decide_true, Bool.true_and, Bool.toNat_false]
      omega
    · have hnone : nodeEv.copies (F.peer e) = 0 :=
        Node.copies_of_foreign hemits fun howner' => hpeer howner'.symm
      simp only [Bool.toNat_false]
      omega

include hid h hp hadvanced in
theorem services_posted_step {n' : N} {i : Nat}
    (hmem : .service i ∈ posters n' (tr ++ [.node n nodeEv])) :
    i < (s'.node n').services ∧ (s'.node n').Spent i := by
  obtain ⟨input, hstep⟩ := hadvanced.step
  rw [posters_snoc] at hmem
  by_cases hn : n = n'
  · subst hn
    rw [if_pos rfl] at hmem
    have hgrows := (Node.services_step hstep).1
    rcases List.mem_append.mp hmem with hold | hnew
    · obtain ⟨hlt, hspent⟩ := hp.services n i hold
      exact ⟨Nat.lt_of_lt_of_le hlt hgrows, Node.spent_step hid (h.up n) hstep hspent⟩
    · obtain ⟨hlt, -, hspent⟩ := (Node.poster_step (h.up n) hstep).2.2 i (Option.mem_toList.mp hnew)
      exact ⟨Nat.lt_of_lt_of_le hlt hgrows, hspent⟩
  · rw [if_neg hn] at hmem
    rw [hadvanced.others n' (Ne.symm hn)]
    exact hp.services n' i (by simpa using hmem)

include h hp hadvanced in
theorem once_step (n' : N) (i : Nat) :
    (posters n' (tr ++ [.node n nodeEv])).count (.service i) ≤ 1 := by
  have honce := hp.once n' i
  obtain ⟨input, hstep⟩ := hadvanced.step
  rw [posters_snoc, List.count_append]
  by_cases hnew : n = n' ∧ nodeEv.poster? = some (.service i)
  · -- the call has not been handed over before
    obtain ⟨rfl, hposter⟩ := hnew
    have hfresh := ((Node.poster_step (h.up n) hstep).2.2 i hposter).2.1
    have hnone : (posters n tr).count (.service i) = 0 :=
      List.count_eq_zero.mpr fun hmem => hfresh (hp.services n i hmem).2
    rw [if_pos rfl, hposter, hnone]
    simp
  · have hnone : (if n = n' then nodeEv.poster? else none).toList.count (.service i) = 0 := by
      refine List.count_eq_zero.mpr fun hmem => hnew ?_
      split at hmem
      · next hn => exact ⟨hn, Option.mem_toList.mp hmem⟩
      · cases hmem
    rw [hnone]
    exact honce

include hid h hp hadvanced in
/-- **A step keeps the other half of the ledger.** -/
theorem paced_step {fedInput : Input N E}
    (hs : (F.machine calculateHash).step s fedInput = some (s', .node n nodeEv)) :
    F.Paced P (tr ++ [.node n nodeEv]) s' := by
  obtain ⟨input, hstep⟩ := hadvanced.step
  have hposter := Node.poster_step (h.up n) hstep
  exact
    { unseen := hadvanced.forall_node (R := fun _ node => node.Unseen)
        (Node.unseen_step (h.up n) (hp.unseen n) hstep hadvanced.calmly) hp.unseen
      members := hadvanced.forall_node (R := fun n node => Node.Exact (fun e => F.owner e = n) F.address node.members)
        (Node.exact_step (h.up n) (hp.members n) hstep hadvanced.calmly) hp.members
      carries := hadvanced.forall_node (R := fun n node => node.Carries P (Node.Exact (fun e => F.owner e = n) F.address))
        (exact_carries_step hid hp hadvanced).1 hp.carries
      foreign := by
        refine hadvanced.forall_node (R := fun n node => ∀ e, F.owner e ≠ n → node.jobs (.eventLoop e) = .absent)
          (fun e hne => ?_) hp.foreign
        have hkept := Node.kept_of_step hstep
        rcases hkept.absent e (hp.foreign n e hne) with habsent | ⟨x, hinput⟩
        · exact habsent
        · exact absurd (owner_of_connect hs (hkept.caused.trans hinput)) hne
      paid := paid_step h hp hadvanced
      copies := copies_le_step hid h hp hadvanced hs
      handed := by
        intro n'
        have hlength := hp.handed n'
        rw [posters_snoc, List.length_append, ← hlength]
        simp only [handed, countP_snoc]
        by_cases hn : n = n'
        · rw [if_pos hn, Event.handsAt, hposter.1]
          cases nodeEv.poster? <;> simp [hn]
        · simp [Event.handsAt, hn]
      loops := by
        intro n' e hmem
        rw [posters_snoc] at hmem
        rcases List.mem_append.mp hmem with hold | hnew
        · exact hp.loops n' e hold
        · split at hnew
          · next hn =>
              subst hn
              by_contra hne
              exact hposter.2.1 e (Option.mem_toList.mp hnew) (hp.foreign n e hne)
          · cases hnew
      services := fun _ _ => services_posted_step hid h hp hadvanced
      once := once_step h hp hadvanced
      originated := by
        intro n'
        have hle := hp.originated n'
        rw [originations, List.filterMap_append, List.length_append]
        by_cases hn : n' = n
        · subst hn
          rcases (Node.services_step hstep).2 with heq | ⟨heq, message, nanos, hinput⟩
          · rw [heq]
            exact hle.trans (Nat.le_add_right _ _)
          · have hone : ([.node n' nodeEv] : List (Event N E)).filterMap Event.origination? =
                [(n', message, nanos)] := by
              simp [Event.origination?, hinput]
            rw [heq, hone]
            exact Nat.succ_le_succ hle
        · rw [hadvanced.others n' hn]
          exact hle.trans (Nat.le_add_right _ _) }

end Paced

/-! ## The connected state -/

/-- When the nodes are connected, each has only its own endpoints. -/
theorem confined_connected (n : N) :
    Node.Exact (fun e => F.owner e = n) F.address (F.connected.node n).members ∧
      (∀ e, F.owner e ≠ n → (F.connected.node n).jobs (.eventLoop e) = .absent) ∧
      (F.connected.node n).services = 0 := by
  have hfold : ∀ l : List E,
      Node.Exact (fun e => F.owner e = n) F.address ((l.foldl F.connect F.initial).node n).members ∧
        (∀ e, F.owner e ≠ n → ((l.foldl F.connect F.initial).node n).jobs (.eventLoop e) = .absent) ∧
        ((l.foldl F.connect F.initial).node n).services = 0 := by
    intro l
    induction l using List.reverseRecOn with
    | nil => exact ⟨fun x e hlookup => (by cases hlookup), fun _ _ => rfl, rfl⟩
    | append_singleton l e ih =>
        rw [List.foldl_append, List.foldl_cons, List.foldl_nil]
        obtain ⟨hexact, hforeign, hservices⟩ := ih
        generalize l.foldl F.connect F.initial = s at hexact hforeign hservices
        by_cases howner : F.owner e = n
        · subst howner
          have hnode : (F.connect s e).node (F.owner e) = ((s.node (F.owner e)).startConnectionEventLoop e
              (F.address e)).addMember (F.address e) e := Function.update_self _ _ _
          rw [hnode]
          refine ⟨Node.exact_insert hexact rfl, fun e' hne => ?_, hservices⟩
          show Function.update (s.node (F.owner e)).jobs (.eventLoop e) .receiving (.eventLoop e') = _
          rw [Function.update_of_ne]
          · exact hforeign e' hne
          · rintro ⟨⟩
            exact hne rfl
        · have hnode : (F.connect s e).node n = s.node n := Function.update_of_ne (Ne.symm howner) _ _
          rw [hnode]
          exact ⟨hexact, hforeign, hservices⟩
  exact hfold F.endpoints

theorem paced_connected
    (haddress : ∀ e e', F.owner e = F.owner e' → F.address e = F.address e' → e = e') :
    F.Paced P [] F.connected := by
  obtain ⟨hjoined, hlink⟩ := joined_connected haddress
  have hnone : ∀ n, (F.connected.node n).queued = [] := by
    intro n
    rw [Node.queued, (hjoined n).queue]
    rfl
  exact
    { unseen := fun n => ⟨by simp [hnone], by simp [hnone], by simp [hnone]⟩
      members := fun n => (confined_connected n).1
      carries := fun n => carries_of_joined (hjoined n)
      foreign := fun n => (confined_connected n).2.1
      paid := fun e => by simp [forwarded, (hjoined (F.owner e)).queue]
      copies := by
        intro e
        have hreceiving := (hjoined (F.owner e)).loops e (F.mem_endpoints e) rfl
        simp [hlink, Node.pending, (hjoined (F.owner e)).inbox e, hreceiving, Node.broadcasts, forwarded,
          Node.Phase.isPosting, Node.Phase.send?]
      handed := fun _ => rfl
      loops := by simp [posters]
      services := by simp [posters]
      once := by simp [posters]
      originated := fun n => by rw [(confined_connected n).2.2]; exact Nat.zero_le _ }

/-- Both halves of the ledger, whatever packages were originated. -/
theorem ledger_of_run {tr : List (Event N E)} {s : State N E}
    (haddress : ∀ e e', F.owner e = F.owner e' → F.address e = F.address e' → e = e')
    (hsome : ∀ n, ∃ e, F.owner e = n)
    (hrun : (F.machine calculateHash).RunWith (fun _ ev => Undisturbed ev) F.connected tr s) :
    ∃ P ids, F.Flood P ids tr s ∧ F.Paced P tr s := by
  obtain ⟨ids, hids⟩ : ∃ ids, ids = (originations tr).map
    (fun r => MessageIdGenerator.next calculateHash ⟨"localhost"⟩ r.2.2) := ⟨_, rfl⟩
  obtain ⟨P, hP⟩ : ∃ P : Message → Prop, ∀ data, P data ↔ ∃ m ∈ ids, data.getMessageId = some m :=
    ⟨_, fun _ => Iff.rfl⟩
  have hid : ∀ data, P data → data.getMessageId ≠ none := by
    intro data hdata
    obtain ⟨m, -, hm⟩ := (hP data).mp hdata
    simp [hm]
  have hguard : ∀ ev ∈ tr, ∀ r, ev.origination? = some r →
      P (F.package calculateHash r.1 r.2.1 r.2.2) := by
    intro ev hev r hr
    refine (hP _).mpr ⟨_, ?_, rfl⟩
    rw [hids]
    exact List.mem_map_of_mem (List.mem_filterMap.mpr ⟨ev, hev, hr⟩)
  refine ⟨P, ids, (hrun.strengthen hguard).invariant (I := fun tr s => F.Flood P ids tr s ∧ F.Paced P tr s)
    ⟨flood_connected ids haddress, paced_connected haddress⟩ ?_⟩
  rintro tr s input s' ev - ⟨hflood, hpaced⟩ hs ⟨hquiet, hpackage⟩
  obtain ⟨n, nodeEv, rfl, hadvanced, hmem⟩ := advanced_of_step hflood hs hquiet hpackage
  refine ⟨flood_step hid ?_ hsome hflood hadvanced haddress ?_, paced_step hid hflood hpaced hadvanced hs⟩
  · intro data m hdata hm
    obtain ⟨m', hmem, hm'⟩ := (hP data).mp hdata
    rwa [Option.some.inj (hm.symm.trans hm')]
  · intro e b hb
    rcases hmem e b hb with hold | ⟨e', hnew⟩
    · exact hflood.links e b hold
    · exact broadcast_of_frames hid hflood hadvanced hnew

/-! ## What is forwarded at most -/

section Bounds

variable {ids : List MessageId} {tr : List (Event N E)} {s : State N E} (h : F.Flood P ids tr s)
  (hp : F.Paced P tr s)

include hp in
/-- **An event loop hands over at most every other Send of its node.** -/
theorem two_mul_forwarded_le (e : E) : 2 * F.forwarded e tr ≤ handed (F.owner e) tr + 1 := by
  have hpaid := hp.paid e
  have hcredit := Node.credit_le (s.node (F.owner e)) e
  omega

include hp in
theorem handed_le (n : N) : handed n tr ≤
    (originations tr).length + ∑ e ∈ (F.connections n).toFinset, F.forwarded e tr := by
  have hlength := Node.length_le_of_count (l := posters n tr) (fun i hi => (hp.services n i hi).1)
    (hp.once n) fun e he => List.mem_toFinset.mpr (mem_connections.mpr (hp.loops n e he))
  have hsum : ∑ e ∈ (F.connections n).toFinset, (posters n tr).count (.eventLoop e) =
      ∑ e ∈ (F.connections n).toFinset, F.forwarded e tr := by
    refine Finset.sum_congr rfl fun e he => ?_
    obtain rfl := mem_connections.mp (List.mem_toFinset.mp he)
    exact (forwarded_eq_count e tr).symm
  rw [← hp.handed, hsum] at hlength
  exact hlength.trans (Nat.add_le_add_right (hp.originated n) _)

include h hp in
/-- What comes in over a connection comes from beyond it. -/
theorem forwarded_le_beyond (e : E) : F.forwarded e tr ≤ 2 * ((originations tr).length +
    ∑ e' ∈ (F.connections (F.owner (F.peer e))).toFinset.erase (F.peer e), F.forwarded e' tr) + 1 := by
  have hmem : F.peer e ∈ (F.connections (F.owner (F.peer e))).toFinset :=
    List.mem_toFinset.mpr (mem_connections.mpr rfl)
  have hall := handed_le hp (F.owner (F.peer e))
  rw [← Finset.add_sum_erase _ _ hmem] at hall
  have htwice := two_mul_forwarded_le hp (F.peer e)
  have hcopies := hp.copies e
  have hqueue := h.queue (F.owner (F.peer e))
  omega

end Bounds

omit [DecidableEq N] in
/-- Where no walk comes around, what lies beyond gets less and less. -/
theorem wellFounded_beyond (hacyclic : ∀ e, ¬ Relation.TransGen F.Beyond e e) :
    WellFounded F.Beyond := by
  have hfinite : Finite E :=
    Set.finite_univ_iff.mp ((F.endpoints.toFinset.finite_toSet).subset fun e _ => by
      simpa using F.mem_endpoints e)
  have htrans : WellFounded (Relation.TransGen F.Beyond) := by
    have hirrefl : Std.Irrefl (Relation.TransGen F.Beyond) := ⟨hacyclic⟩
    exact Finite.wellFounded_of_trans_of_irrefl _
  exact Subrelation.wf (fun hstep => Relation.TransGen.single hstep) htrans

/-- **Where the connections do not go around, every broadcast ends.**  Every node has a connection and
knows its connections under different addresses.  There is a bound on the Sends that the nodes hand to
their actors, which depends only on the connections and on how many packages are originated: no run from
the connected federation goes beyond it, as long as no reliable send fails, nothing is lost and no
connection closes. -/
theorem handed_le_of_acyclic
    (haddress : ∀ e e', F.owner e = F.owner e' → F.address e = F.address e' → e = e')
    (hsome : ∀ n, ∃ e, F.owner e = n) (hacyclic : ∀ e, ¬ Relation.TransGen F.Beyond e e) (k : Nat) :
    ∃ bound, ∀ (calculateHash : String → MessageId) tr s,
      (F.machine calculateHash).RunWith (fun _ ev => Undisturbed ev) F.connected tr s →
      (originations tr).length ≤ k → ∀ n, handed n tr ≤ bound := by
  have hforwarded : ∀ e, ∃ bound, ∀ (calculateHash : String → MessageId) tr s,
      (F.machine calculateHash).RunWith (fun _ ev => Undisturbed ev) F.connected tr s →
      (originations tr).length ≤ k → F.forwarded e tr ≤ bound := by
    intro e
    induction e using (wellFounded_beyond hacyclic).induction with
    | _ e ih =>
        choose! bound hbound using ih
        refine ⟨2 * (k + ∑ e' ∈ (F.connections (F.owner (F.peer e))).toFinset.erase (F.peer e),
          bound e') + 1, fun calculateHash tr s hrun hk => ?_⟩
        obtain ⟨P, ids, hflood, hpaced⟩ := ledger_of_run haddress hsome hrun
        have hle := forwarded_le_beyond hflood hpaced e
        have hsum := Finset.sum_le_sum fun e' he' =>
          hbound e' ⟨mem_connections.mp (List.mem_toFinset.mp (Finset.mem_of_mem_erase he')),
            Finset.ne_of_mem_erase he'⟩ calculateHash tr s hrun hk
        omega
  choose bound hbound using hforwarded
  refine ⟨k + ∑ e ∈ F.endpoints.toFinset, bound e, fun calculateHash tr s hrun hk n => ?_⟩
  obtain ⟨P, ids, -, hpaced⟩ := ledger_of_run haddress hsome hrun
  have hsubset : (F.connections n).toFinset ⊆ F.endpoints.toFinset :=
    fun e _ => List.mem_toFinset.mpr (F.mem_endpoints e)
  calc handed n tr
      ≤ (originations tr).length + ∑ e ∈ (F.connections n).toFinset, F.forwarded e tr :=
        handed_le hpaced n
    _ ≤ k + ∑ e ∈ (F.connections n).toFinset, bound e :=
        Nat.add_le_add hk (Finset.sum_le_sum fun e _ => hbound e calculateHash tr s hrun hk)
    _ ≤ k + ∑ e ∈ F.endpoints.toFinset, bound e :=
        Nat.add_le_add_left (Finset.sum_le_sum_of_subset hsubset) _

/-- Two nodes that are connected to a third, and not to each other. -/
def inLine : Federation (Option Bool) (Bool × Bool) where
  bindAddress
    | none => "127.0.0.1:6680"
    | some false => "127.0.0.1:6681"
    | some true => "127.0.0.1:6682"
  owner
    | (side, true) => some side
    | (_, false) => none
  peer := fun e => (e.1, !e.2)
  address
    | (_, true) => "127.0.0.1:6680"
    | (false, false) => "127.0.0.1:50001"
    | (true, false) => "127.0.0.1:50002"
  endpoints := [(true, true), (true, false), (false, false), (false, true)]
  peer_peer := by decide
  owner_peer := by decide
  mem_endpoints := by decide
  nodup_endpoints := by decide

theorem handed_le_of_acyclic_inLine :
    ∃ bound, ∀ (calculateHash : String → MessageId) tr s,
      (inLine.machine calculateHash).RunWith (fun _ ev => Undisturbed ev) inLine.connected tr s →
      (originations tr).length ≤ 1 → ∀ n, handed n tr ≤ bound := by
  refine handed_le_of_acyclic (by decide) (by decide) ?_ 1
  -- a walk from one side leads to the other, and stops there
  intro e hcycle
  obtain ⟨d, ⟨hback, hne⟩, -⟩ := Relation.TransGen.head'_iff.mp hcycle
  obtain ⟨f, -, hon, hne'⟩ := Relation.TransGen.tail'_iff.mp hcycle
  clear hcycle
  revert e d f
  decide

end Federation

end FrostFederation
