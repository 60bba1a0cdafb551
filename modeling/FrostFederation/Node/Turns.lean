/-
# FrostFederation.Node.Turns — how often the tasks of a node can hand a Send over.

An event loop that has handed a Send over is in the call of `EchoBroadcastHandle::send` until the Send of
another task with the same id has replaced its oneshot sender in the map of the actor.  So the event
loops of a node take turns.  `credit` puts this into numbers: a Send costs an event loop two, its node
earns one with every Send that the actor handles, and until it returns the call has credit for what is
not paid yet (`worth`).  No step overdraws the account (`credit_step`).

A call of the main task hands its Send over once (`Spent`), and a Send that is handled puts at most one
copy on a connection, since the members are the node's own connections (`Exact`).
-/
import FrostFederation.Node.Rest

namespace FrostFederation.Node

open FrostFederation.Lib
open FrostFederation.Protocol
open FrostFederation.EchoBroadcast (ReliableSenderMap EchoBroadcastActor EchoBroadcastMessage EchoTask)

variable {E : Type} [DecidableEq E] {calculateHash : String → MessageId} {own : E → Prop}
  {addr : E → String} {P : Message → Prop}

/-! ## The account of an event loop -/

/-- The oneshot senders in the queue of the actor. -/
def queued (node : Node E) : List Oneshot := node.queue.flatMap EchoTask.respondTo

/-- The calls in the queue are different ones, and the actor has not seen any of them. -/
structure Unseen (node : Node E) : Prop where
  nodup : node.queued.Nodup
  results : ∀ tx ∈ node.queued, node.results tx = none
  waiter : ∀ tx ∈ node.queued, ∀ m, node.waiter m ≠ some tx

/-- What a call is worth until it is answered: two while the actor has not seen it, then one. -/
def worth (node : Node E) (tx : Oneshot) : Nat :=
  if tx ∈ node.queued then 2 else (node.results tx).isNone.toNat

/-- What the call of an event loop is worth, if it is in one. -/
def credit (node : Node E) (e : E) : Nat :=
  match (node.jobs (.eventLoop e)).send? with
  | some (.waiting tx) => node.worth tx
  | _ => 0

omit [DecidableEq E] in
theorem mem_queued_snoc {node node' : Node E} {data : Message} {members : ReliableSenderMap E}
    {tx tx' : Oneshot} (hqueue : node'.queue = node.queue ++ [.send data members tx]) :
    tx' ∈ node'.queued ↔ tx' ∈ node.queued ∨ tx' = tx := by
  have hsnoc : node'.queued = node.queued ++ [tx] := by
    rw [queued, hqueue, List.flatMap_append]
    rfl
  rw [hsnoc, List.mem_append, List.mem_singleton]

omit [DecidableEq E] in
theorem queued_cons {node : Node E} {data : Message} {members : ReliableSenderMap E} {tx : Oneshot}
    {rest : List (EchoBroadcastMessage E)} (hqueue : node.queue = .send data members tx :: rest) :
    node.queued = tx :: rest.flatMap EchoTask.respondTo := by
  rw [queued, hqueue]
  rfl

omit [DecidableEq E] in
theorem credit_le_add {node node' : Node E} {e : E} {d : Nat}
    (hjob : node'.jobs (.eventLoop e) = node.jobs (.eventLoop e))
    (hworth : ∀ tx, node.worth tx ≤ node'.worth tx + d) : node.credit e ≤ node'.credit e + d := by
  unfold credit
  rw [hjob]
  split
  · exact hworth _
  · exact Nat.zero_le _

omit [DecidableEq E] in
theorem unseen_of_eq {node node' : Node E} (h : Unseen node) (hqueue : node'.queue = node.queue)
    (hactor : node'.actor = node.actor) (hresults : node'.results = node.results) : Unseen node' := by
  have hqueued : node'.queued = node.queued := by rw [queued, queued, hqueue]
  have hwaiter : node'.waiter = node.waiter := by
    funext m
    rw [waiter, waiter, hactor]
  refine ⟨?_, ?_, ?_⟩
  · rw [hqueued]
    exact h.nodup
  · rw [hqueued, hresults]
    exact h.results
  · rw [hqueued, hwaiter]
    exact h.waiter

omit [DecidableEq E] in
theorem lt_opened_of_queued {node : Node E} (h : Numbered node) {tx : Oneshot} (htx : tx ∈ node.queued) :
    tx < node.opened := by
  obtain ⟨command, hmem, htx⟩ := List.mem_flatMap.mp htx
  exact h.queue command hmem tx htx

omit [DecidableEq E] in
/-- The call whose oneshot sender is replaced is not one of those in the queue. -/
theorem results_of_queued {node node' : Node E} (h : Unseen node) {m : MessageId}
    (hresults : node'.results = match node.waiter m with
      | some tx' => Function.update node.results tx' (some (.error "channel closed"))
      | none => node.results) {tx : Oneshot} (htx : tx ∈ node.queued) : node'.results tx = none := by
  rw [hresults]
  split
  · next old hold =>
      rw [Function.update_of_ne]
      · exact h.results tx htx
      · rintro rfl
        exact h.waiter tx htx m hold
  · exact h.results tx htx

theorem unseen_step {node node' : Node E} {input : Input E} {ev : Event E} (hup : Up own addr P node)
    (h : Unseen node) (hs : (machine calculateHash E).step node input = some (node', ev))
    (hcalm : Calmly own P calculateHash node ev) : Unseen node' := by
  cases stepped_of_step hs with
  | @posted j nanos data members hphase =>
      -- the new call has a oneshot that nobody has seen
      refine ⟨?_, ?_, ?_⟩
      · unfold queued
        rw [List.flatMap_append]
        refine List.nodup_append.mpr ⟨h.nodup, List.nodup_singleton _, fun tx htx tx' htx' heq => ?_⟩
        rw [List.mem_singleton.mp htx'] at heq
        exact absurd (lt_opened_of_queued hup.numbered htx) (by rw [heq]; exact Nat.lt_irrefl _)
      · intro tx htx
        rcases (mem_queued_snoc rfl).mp htx with hold | rfl
        · exact h.results tx hold
        · exact hup.numbered.results _ (Nat.le_refl _)
      · intro tx htx m hw
        rcases (mem_queued_snoc rfl).mp htx with hold | rfl
        · exact h.waiter tx hold m hw
        · exact absurd (hup.numbered.waiter m _ hw) (Nat.lt_irrefl _)
  | @handled reach command rest hlive hqueue =>
      obtain rfl := hcalm.reached reach rfl
      obtain ⟨data, members, tx, m, rfl, -, hrest, hwaiter, hresults⟩ :=
        handleCommand_smooth hup.sound hqueue
      have hcons := queued_cons hqueue
      have hnodup := h.nodup
      rw [hcons, List.nodup_cons] at hnodup
      have hmem : ∀ {tx'}, tx' ∈ rest.flatMap EchoTask.respondTo → tx' ∈ node.queued := by
        intro tx' htx'
        rw [hcons]
        exact List.mem_cons_of_mem _ htx'
      refine ⟨?_, ?_, ?_⟩
      · rw [queued, hrest]
        exact hnodup.2
      · intro tx' htx'
        rw [queued, hrest] at htx'
        exact results_of_queued h hresults (hmem htx')
      · intro tx' htx' m' hw
        rw [queued, hrest] at htx'
        rw [hwaiter] at hw
        split at hw
        · rw [Option.some.inj hw] at hnodup
          exact hnodup.1 htx'
        · exact h.waiter tx' (hmem htx') m' hw
  | _ => exact unseen_of_eq h rfl rfl rfl

/-- The call that is made is worth two, and the others no less than before. -/
theorem credit_posted {node : Node E} (node' : Node E) {j : Job E} {data : Message} {members : ReliableSenderMap E}
    (hphase : (node.jobs j).send? = some (.posting data members))
    (hjobs : node'.jobs = Function.update node.jobs j ((node.jobs j).setSend (.waiting node.opened)))
    (hqueue : node'.queue = node.queue ++ [.send data members node.opened])
    (hresults : node'.results = node.results) (e : E) :
    2 * (decide (j = .eventLoop e)).toNat + node.credit e ≤ node'.credit e := by
  by_cases heq : j = .eventLoop e
  · subst heq
    have hsend : (node'.jobs (.eventLoop e)).send? = some (.waiting node.opened) := by
      rw [hjobs, Function.update_self]
      cases hp : node.jobs (.eventLoop e) <;> simp_all [Phase.send?, Phase.setSend]
    have hmem : node.opened ∈ node'.queued := (mem_queued_snoc hqueue).mpr (Or.inr rfl)
    simp [credit, hphase, hsend, worth, hmem]
  · have hjob : node'.jobs (.eventLoop e) = node.jobs (.eventLoop e) := by
      rw [hjobs, Function.update_of_ne (Ne.symm heq)]
    have hle := credit_le_add (d := 0) hjob fun tx => by
      unfold worth
      rw [hresults]
      by_cases htx : tx ∈ node.queued
      · have htx' : tx ∈ node'.queued := (mem_queued_snoc hqueue).mpr (Or.inl htx)
        rw [if_pos htx, if_pos htx']
      · rw [if_neg htx]
        split
        · exact (Bool.toNat_le _).trans (Nat.le_succ _)
        · exact Nat.le_refl _
    simpa [heq] using hle

omit [DecidableEq E] in
/-- The Send that is handled costs one call its worth of one: the call that made it, or the one whose
oneshot sender it replaces. -/
theorem credit_handled {node node' : Node E} (h : Unseen node) {data : Message}
    {members : ReliableSenderMap E} {tx : Oneshot} {m : MessageId}
    {rest : List (EchoBroadcastMessage E)} (hqueue : node.queue = .send data members tx :: rest)
    (hjobs : node'.jobs = node.jobs) (hrest : node'.queue = rest)
    (hresults : node'.results = match node.waiter m with
      | some tx' => Function.update node.results tx' (some (.error "channel closed"))
      | none => node.results) (e : E) : node.credit e ≤ node'.credit e + 1 := by
  have hcons := queued_cons hqueue
  refine credit_le_add (by rw [hjobs]) fun tx' => ?_
  by_cases htx : tx' ∈ node.queued
  · have hmem := htx
    rw [hcons] at hmem
    rcases List.mem_cons.mp hmem with rfl | hmem
    · -- the actor has now seen this call, and has not answered it
      have hnone := results_of_queued h hresults htx
      unfold worth
      rw [if_pos htx, hnone]
      split
      · exact Nat.le_succ _
      · exact Nat.le_refl _
    · have hmem' : tx' ∈ node'.queued := by rwa [queued, hrest]
      unfold worth
      rw [if_pos htx, if_pos hmem']
      exact Nat.le_succ _
  · unfold worth
    rw [if_neg htx]
    exact (Bool.toNat_le _).trans (Nat.le_add_left _ _)

/-- **An event loop pays for its next Send with one of somebody else.**  A Send costs it two, for which
its call has credit.  One is paid when this Send is handled, and the other one only when the Send that
replaces its oneshot sender is. -/
theorem credit_step {node node' : Node E}
    {input : Input E} {ev : Event E} (hup : Up own addr P node) (h : Unseen node) {e : E} (he : own e)
    (hs : (machine calculateHash E).step node input = some (node', ev))
    (hcalm : Calmly own P calculateHash node ev) :
    2 * (ev.forwards e).toNat + node'.queue.length + node.credit e ≤
      node.queue.length + ev.handed.isSome.toNat + node'.credit e := by
  have hsame : ev.forwards e = false → node'.queue = node.queue → node.credit e ≤ node'.credit e →
      2 * (ev.forwards e).toNat + node'.queue.length + node.credit e ≤
        node.queue.length + ev.handed.isSome.toNat + node'.credit e := by
    intro hforwards hqueue hcredit
    rw [hforwards, hqueue, Bool.toNat_false]
    omega
  have hkept : node'.jobs (.eventLoop e) = node.jobs (.eventLoop e) → node'.queue = node.queue →
      node'.results = node.results → node.credit e ≤ node'.credit e := by
    intro hjob hqueue hresults
    refine credit_le_add (d := 0) hjob fun tx => ?_
    rw [worth, worth, queued, queued, hqueue, hresults]
    exact Nat.le_refl _
  have hother : ∀ {j : Job E} {phase : Phase E}, .eventLoop e ≠ j →
      Function.update node.jobs j phase (.eventLoop e) = node.jobs (.eventLoop e) :=
    fun hne => Function.update_of_ne hne _ _
  cases stepped_of_step hs with
  | @posted j nanos data members hphase =>
      have hforwards : Event.forwards e ⟨.post j nanos, [], some (.send data members node.opened), none⟩ =
          decide (j = .eventLoop e) := by
        cases j <;> simp [Event.forwards]
      have hcredit := credit_posted { node with
          jobs := Function.update node.jobs j ((node.jobs j).setSend (.waiting node.opened))
          queue := node.queue ++ [.send data members node.opened]
          opened := node.opened + 1 } hphase rfl rfl rfl e
      rw [hforwards]
      simp only [List.length_append, List.length_singleton, Option.isSome_some, Bool.toNat_true]
      omega
  | refused hphase =>
      obtain ⟨-, hhanded⟩ := handed_of_post hup.sound.alive hphase hs
      cases hhanded
  | @woken j nanos tx result hphase hresult =>
      by_cases heq : .eventLoop e = j
      · subst heq
        -- the call has been answered, so the actor has seen it
        have hseen : tx ∉ node.queued := by
          intro htx
          cases (h.results tx htx).symm.trans hresult
        have hbefore : node.credit e = 0 := by simp [credit, hphase, worth, hseen, hresult]
        exact hsame rfl rfl (by rw [hbefore]; exact Nat.zero_le _)
      · exact hsame rfl rfl (hkept (hother heq) rfl rfl)
  | @timedOut e₁ send hphase =>
      refine hsame rfl rfl (hkept (hother ?_) rfl rfl)
      rintro ⟨⟩
      simpa [Phase.InLoop, hphase] using hup.loops e he
  | @connected e₁ address habsent =>
      refine hsame rfl rfl (hkept (hother ?_) rfl rfl)
      rintro ⟨⟩
      simpa [Phase.InLoop, habsent] using hup.loops e he
  | @taken e₁ m rest nanos hphase hinbox =>
      by_cases heq : e = e₁
      · subst heq
        have hbefore : node.credit e = 0 := by simp [credit, hphase, Phase.send?]
        exact hsame rfl rfl (by rw [hbefore]; exact Nat.zero_le _)
      · exact hsame rfl rfl (hkept (hother (by simpa using heq)) rfl rfl)
  | originated => exact hsame rfl rfl (hkept (by simp) rfl rfl)
  | @handled reach command rest hlive hqueue =>
      obtain rfl := hcalm.reached reach rfl
      have huntouched := (handleCommand_cases node (fun _ => true) command rest).1
      obtain ⟨data, members, tx, m, rfl, -, hrest, -, hresults⟩ := handleCommand_smooth hup.sound hqueue
      have hcredit := credit_handled h hqueue huntouched.jobs hrest hresults e
      rw [hrest, hqueue]
      simp only [Event.forwards, Bool.toNat_false, List.length_cons]
      omega
  | @finished e₁ _ _ => exact absurd rfl (hcalm.finish e₁)
  | _ => exact hsame rfl rfl (hkept rfl rfl rfl)

omit [DecidableEq E] in
theorem credit_le (node : Node E) (e : E) : node.credit e ≤ node.queue.length + 1 := by
  unfold credit
  split
  · next tx _ =>
      unfold worth
      split
      · next htx =>
          obtain ⟨command, hmem, -⟩ := List.mem_flatMap.mp htx
          exact Nat.succ_le_succ (List.length_pos_of_mem hmem)
      · exact (Bool.toNat_le _).trans (Nat.le_add_left _ _)
  · exact Nat.zero_le _

/-! ## Copies on a connection -/

/-- Only connections of the node are registered, each under its own address. -/
def Exact (own : E → Prop) (addr : E → String) (members : ReliableSenderMap E) : Prop :=
  ∀ x e, members.lookup x = some e → own e ∧ addr e = x

omit [DecidableEq E] in
/-- `send_message` writes to one member after the other. -/
theorem sentFrames_sendToMembers (reach : String → Bool) (data : Message) (messageId : MessageId)
    (entries : List ((_ : String) × E)) (echos : EchoBroadcast.EchosMap) :
    (sentFrames (EchoBroadcastActor.sendToMembers reach data messageId entries echos).2.1).Sublist
      (entries.map fun entry => (entry.2, data)) := by
  induction entries generalizing echos with
  | nil => exact List.Sublist.refl _
  | cons entry rest ih =>
      unfold EchoBroadcastActor.sendToMembers
      split
      · exact (ih _).cons_cons _
      · exact (List.nil_sublist _).cons_cons _

omit [DecidableEq E] in
theorem sentFrames_sendMessage {a a' : EchoBroadcastActor E} {reach : String → Bool} {data : Message}
    {members : ReliableSenderMap E} {tx : Oneshot} {effects : List (EchoBroadcast.Effect E)}
    {result : ConnectionResult} (h : a.sendMessage reach data members tx = some (a', effects, result)) :
    (sentFrames effects).Sublist (members.entries.map fun entry => (entry.2, data)) := by
  unfold EchoBroadcastActor.sendMessage at h
  split at h
  · cases h
  · next messageId _ =>
      have hloop := sentFrames_sendToMembers reach data messageId members.entries a.messageEchos
      split at h
      · next echos sent hsend =>
          cases h
          rw [hsend] at hloop
          simpa [sentFrames_append, sentFrames] using hloop
      · next echos sent hsend =>
          rw [hsend] at hloop
          split at h
          · cases h
          · next actor' dropped hcomplete =>
              cases h
              rw [sentFrames_append, sentFrames_completeSend hcomplete, List.append_nil]
              exact hloop

omit [DecidableEq E] in
theorem sentFrames_process (a : EchoBroadcastActor E) (reach : String → Bool) (data : Message)
    (members : ReliableSenderMap E) (tx : Oneshot) :
    (sentFrames (EchoTask.process (some a) reach (.send data members tx)).2.effects).Sublist
      (members.entries.map fun entry => (entry.2, data)) := by
  unfold EchoTask.process
  cases h : a.handleMessage reach (.send data members tx) with
  | none =>
      simp only [h, sentFrames_drop]
      exact List.nil_sublist _
  | some r =>
      simp only [h]
      exact sentFrames_sendMessage h

omit [DecidableEq E] in
theorem nodup_values {members : ReliableSenderMap E} (h : Exact own addr members) :
    (members.entries.map Sigma.snd).Nodup := by
  refine List.pairwise_map.mpr ((List.nodupKeys_iff_pairwise.mp members.nodupKeys).imp_of_mem ?_)
  intro entry entry' hmem hmem' hne heq
  have h₁ := h entry.1 entry.2 ((HashMap.mem_entries_iff_lookup _ _ _).mp hmem)
  have h₂ := h entry'.1 entry'.2 ((HashMap.mem_entries_iff_lookup _ _ _).mp hmem')
  exact hne (by rw [← h₁.2, ← h₂.2, heq])

/-- The broadcasts among the frames that a step writes to connection `e`. -/
def Event.copies (e : E) (ev : Event E) : Nat :=
  broadcasts (ev.frames.filterMap fun f => if f.1 = e then some f.2 else none)

/-- Frames that are no broadcasts. -/
theorem copies_eq_zero {e : E} {ev : Event E}
    (hframes : ∀ f ∈ ev.frames, f.1 = e → ∃ u, f.2 = .unicastMessage u) : ev.copies e = 0 := by
  refine List.countP_eq_zero.mpr fun message hmem => ?_
  obtain ⟨f, hf, heq⟩ := List.mem_filterMap.mp hmem
  split at heq
  · next he =>
      obtain ⟨u, hu⟩ := hframes f hf he
      rw [← Option.some.inj heq, hu]
      exact Bool.false_ne_true
  · cases heq

/-- A node writes broadcasts only to its own connections. -/
theorem copies_of_foreign {ev : Event E} {e : E}
    (hemits : Emits P (Exact own addr) ev) (he : ¬ own e) : ev.copies e = 0 := by
  refine copies_eq_zero ?_
  rintro f hf rfl
  rcases hemits.frames f hf with hunicast | ⟨-, members, x, hexact, hlookup⟩
  · exact hunicast
  · exact absurd (hexact x f.1 hlookup).1 he

/-- **Every Send that is handled puts at most one copy on a connection.** -/
theorem copies_le {node node' : Node E} {input : Input E} {ev : Event E}
    (hcarries : Carries P (Exact own addr) node)
    (hs : (machine calculateHash E).step node input = some (node', ev)) (e : E) :
    ev.copies e ≤ ev.processed.isSome.toNat := by
  cases stepped_of_step hs with
  | @handled reach command rest hlive hqueue =>
      obtain ⟨a, ha⟩ := Option.isSome_iff_exists.mp hlive
      obtain ⟨data, members, tx, rfl, -, hexact⟩ :=
        hcarries.queue command (by rw [hqueue]; exact List.mem_cons_self)
      have hprocess : (node.handleCommand reach (.send data members tx) rest).2 =
          (EchoTask.process (some a) reach (.send data members tx)).2 := by
        rw [(handleCommand_cases node reach (.send data members tx) rest).2.1, ha]
      rw [hprocess]
      -- no connection is a member twice
      have hsub := (sentFrames_process a reach data members tx).map Prod.fst
      rw [List.map_map] at hsub
      have hcount := List.nodup_iff_count_le_one.mp ((nodup_values hexact).sublist hsub) e
      rw [List.count, List.countP_map] at hcount
      refine List.countP_le_length.trans ?_
      rw [List.length_filterMap_eq_countP]
      refine Nat.le_trans (List.countP_mono_left fun f _ hf => ?_) hcount
      by_cases he : f.1 = e
      · simp [he]
      · simp [he] at hf
  | answered _ hframes =>
      rw [copies_eq_zero fun f hf _ => hframes f hf]
      exact Nat.zero_le _
  | requested hframes =>
      rw [copies_eq_zero fun f hf _ => hframes f hf]
      exact Nat.zero_le _
  | _ => exact Nat.zero_le _

omit [DecidableEq E] in
theorem exact_insert {members : ReliableSenderMap E} (h : Exact own addr members) {e : E} (he : own e) :
    Exact own addr (members.insert (addr e) e) := by
  intro x e' hlookup
  rw [HashMap.lookup_insert_eq_ite] at hlookup
  split at hlookup
  · next heq =>
      obtain rfl := Option.some.inj hlookup
      exact ⟨he, heq.symm⟩
  · exact h x e' hlookup

/-- Only the connections of the node are ever registered. -/
theorem exact_step {node node' : Node E} {input : Input E} {ev : Event E} (h : Up own addr P node)
    (hexact : Exact own addr node.members)
    (hs : (machine calculateHash E).step node input = some (node', ev))
    (hcalm : Calmly own P calculateHash node ev) : Exact own addr node'.members := by
  cases stepped_of_step hs with
  | @registered e address haddress =>
      have he := hcalm.register e rfl
      obtain rfl : addr e = address := Option.some.inj ((h.address e he).symm.trans haddress)
      exact exact_insert hexact he
  | @finished e _ _ => exact absurd rfl (hcalm.finish e)
  | @handled reach command rest _ _ =>
      rw [(handleCommand_cases node reach command rest).1.members]
      exact hexact
  | _ => exact hexact

/-! ## Who hands Sends over -/

/-- A call of the main task that has been handed over. -/
def Spent (node : Node E) (i : Nat) : Prop :=
  node.jobs (.service i) ≠ .absent ∧ (node.jobs (.service i)).isPosting = false

/-- The task that hands a Send over. -/
def Event.poster? (ev : Event E) : Option (Job E) :=
  match ev.input, ev.handed with
  | .post j _, some _ => some j
  | _, _ => none

theorem spent_step (hid : ∀ data, P data → data.getMessageId ≠ none) {node node' : Node E}
    {input : Input E} {ev : Event E} (hup : Up own addr P node)
    (hs : (machine calculateHash E).step node input = some (node', ev)) {i : Nat} (h : Spent node i) :
    Spent node' i := by
  have hposting : ∀ {data members}, (node.jobs (.service i)).send? ≠ some (.posting data members) := by
    intro data members hphase
    simpa [Phase.isPosting, hphase] using h.2
  by_cases horiginate : ∃ message nanos, input = .originate message nanos
  · -- the call that is made is another one
    obtain ⟨message, nanos, rfl⟩ := horiginate
    have hne : Job.service i ≠ (.service node.services : Job E) := by
      rintro ⟨⟩
      exact h.1 (hup.numbered.services _ (Nat.le_refl _))
    cases stepped_of_step hs with
    | originated => simpa only [Spent, Function.update_of_ne hne] using h
  · by_cases hpost : ∃ nanos, input = .post (.service i) nanos
    · obtain ⟨nanos, rfl⟩ := hpost
      cases stepped_of_step hs with
      | posted hphase => exact absurd hphase hposting
      | refused hphase => exact absurd hphase hposting
    · by_cases hwake : ∃ nanos, input = .wake (.service i) nanos
      · obtain ⟨nanos, rfl⟩ := hwake
        cases stepped_of_step hs with
        | @woken _ _ tx result hphase _ =>
            obtain ⟨r, hr⟩ := sendReturned_of_identified calculateHash
              (fun message _ hecho => hid _ (hup.carries.echoing hecho)) hphase nanos result
            simp [Spent, setJob, hr, serviceReturned, Phase.isPosting, Phase.send?]
      · unfold Spent
        rw [service_kept hs (fun message nanos heq => horiginate ⟨message, nanos, heq⟩)
          (fun nanos heq => hpost ⟨nanos, heq⟩) (fun nanos heq => hwake ⟨nanos, heq⟩)]
        exact h

/-- What hands a Send over is a task that was about to, and a call of the main task does so once. -/
theorem poster_step {node node' : Node E} {input : Input E} {ev : Event E} (hup : Up own addr P node)
    (hs : (machine calculateHash E).step node input = some (node', ev)) :
    (ev.handed.isSome = ev.poster?.isSome) ∧ (∀ e, ev.poster? = some (.eventLoop e) →
      node.jobs (.eventLoop e) ≠ .absent) ∧ ∀ i, ev.poster? = some (.service i) →
        i < node.services ∧ ¬ Spent node i ∧ Spent node' i := by
  cases stepped_of_step hs with
  | @posted j nanos data members hphase =>
      refine ⟨rfl, ?_, ?_⟩
      · rintro e heq habsent
        obtain rfl : j = .eventLoop e := Option.some.inj heq
        simp [habsent, Phase.send?] at hphase
      · rintro i heq
        obtain rfl : j = .service i := Option.some.inj heq
        refine ⟨?_, ?_, ?_⟩
        · by_contra hle
          simp [hup.numbered.services i (Nat.le_of_not_lt hle), Phase.send?] at hphase
        · rintro ⟨-, hposting⟩
          simp [Phase.isPosting, hphase] at hposting
        · cases hp : node.jobs (.service i) <;>
            simp_all [Spent, Phase.isPosting, Phase.send?, Phase.setSend]
  | refused hphase =>
      obtain ⟨-, hhanded⟩ := handed_of_post hup.sound.alive hphase hs
      cases hhanded
  | _ => exact ⟨rfl, by simp [Event.poster?, Event.quiet], by simp [Event.poster?, Event.quiet]⟩

theorem forwards_eq_poster {e : E} {ev : Event E} :
    ev.forwards e = decide (ev.poster? = some (.eventLoop e)) := by
  unfold Event.forwards Event.poster?
  cases ev.input with
  | post j nanos => cases j <;> cases ev.handed <;> simp
  | _ => simp

/-- The main task is in one more call for each package that it originates. -/
theorem services_step {node node' : Node E} {input : Input E} {ev : Event E}
    (hs : (machine calculateHash E).step node input = some (node', ev)) :
    node.services ≤ node'.services ∧ (node'.services = node.services ∨
      (node'.services = node.services + 1 ∧ ∃ message nanos, ev.input = .originate message nanos)) := by
  cases stepped_of_step hs with
  | originated => exact ⟨Nat.le_succ _, Or.inr ⟨rfl, _, _, rfl⟩⟩
  | @handled reach command rest _ _ =>
      rw [(handleCommand_cases node reach command rest).1.services]
      exact ⟨Nat.le_refl _, Or.inl rfl⟩
  | _ => exact ⟨Nat.le_refl _, Or.inl rfl⟩

/-- Calls of the main task that are made once each, and event loops: a list of tasks is no longer than
there are calls, and as often as it names each of the event loops. -/
theorem length_le_of_count {l : List (Job E)} {calls : Nat} {ends : Finset E}
    (hcalls : ∀ i, .service i ∈ l → i < calls) (honce : ∀ i, l.count (.service i) ≤ 1)
    (hends : ∀ e, .eventLoop e ∈ l → e ∈ ends) :
    l.length ≤ calls + ∑ e ∈ ends, l.count (.eventLoop e) := by
  have hmem : ∀ j ∈ (l : Multiset (Job E)),
      j ∈ (Finset.range calls).image .service ∪ ends.image .eventLoop := by
    intro j hj
    cases j with
    | service i => simpa using hcalls i hj
    | eventLoop e => simpa using hends e hj
  have hdisjoint : Disjoint ((Finset.range calls).image (Job.service (E := E)))
      (ends.image .eventLoop) := by
    simp [Finset.disjoint_left]
  have hlength := Multiset.sum_count_eq_card hmem
  rw [Finset.sum_union hdisjoint, Finset.sum_image fun i _ i' _ heq => Job.service.inj heq,
    Finset.sum_image fun e _ e' _ heq => Job.eventLoop.inj heq] at hlength
  simp only [Multiset.coe_count, Multiset.coe_card] at hlength
  have hsum : ∑ i ∈ Finset.range calls, l.count (.service i) ≤ calls := by
    simpa using Finset.sum_le_card_nsmul (Finset.range calls) _ 1 fun i _ => honce i
  omega

end FrostFederation.Node
