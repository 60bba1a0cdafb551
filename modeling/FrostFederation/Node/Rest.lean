/-
# FrostFederation.Node.Rest — a node whose connections stay up, and what it waits for when nothing moves.

As long as no reliable send fails and no connection closes, every event loop of a node either receives
or responds to a broadcast, and every Send goes to all the node's connections (`Up`).  A call of
`EchoBroadcastHandle::send` that waits has its oneshot sender in the queue of the actor, or in the map of
the actor under the id of its broadcast, or has been answered (`Held`).

When no task of the node can move any more, the queue is empty and no answer is left to be taken; so the
event loops that wait hold different ids, and at most as many of them wait as there are ids
(`exists_receiving`).  All the others receive, and have nothing to receive.
-/
import FrostFederation.Node.Waiting
import Mathlib.Combinatorics.Enumerative.DoubleCounting

namespace FrostFederation.Node

open FrostFederation.Lib
open FrostFederation.Protocol
open FrostFederation.EchoBroadcast (ReliableSenderMap EchoBroadcastActor EchoBroadcastMessage EchoTask)

variable {E : Type} [DecidableEq E] {calculateHash : String → MessageId}

/-! ## Connections that stay up -/

/-- Every connection of the node is registered, under its own address. -/
def Complete (own : E → Prop) (addr : E → String) (members : ReliableSenderMap E) : Prop :=
  ∀ e, own e → members.lookup (addr e) = some e

/-- A step in which nothing fails and nothing closes: the broadcasts that come in have `P`, and only the
node's own connections are registered. -/
structure Calmly (own : E → Prop) (P : Message → Prop) (calculateHash : String → MessageId)
    (node : Node E) (ev : Event E) : Prop where
  reached : ∀ reach, ev.input = .actor reach → reach = fun _ => true
  close : ∀ e, ev.input ≠ .close e
  finish : ∀ e, ev.input ≠ .finish e
  register : ∀ e, ev.input = .register e → own e
  arrive : ∀ e b, ev.input = .arrive e (.broadcastMessage b) → P (.broadcastMessage b)
  originate : ∀ message nanos, ev.input = .originate message nanos →
    P (newPackage calculateHash node message nanos)

/-- The event loop is between two messages, or in the call of `EchoBroadcastHandle::send`. -/
def Phase.InLoop (phase : Phase E) : Prop :=
  phase = .receiving ∨ ∃ message send, phase = .echoing message send

/-- A node all of whose connections are up. -/
structure Up (own : E → Prop) (addr : E → String) (P : Message → Prop) (node : Node E) : Prop where
  sound : Sound node
  numbered : Numbered node
  carries : Carries P (Complete own addr) node
  members : Complete own addr node.members
  address : ∀ e, own e → node.address e = some (addr e)
  closed : ∀ e, node.closed e = false
  loops : ∀ e, own e → (node.jobs (.eventLoop e)).InLoop

section Up

variable {own : E → Prop} {addr : E → String} {P : Message → Prop} {ids : List MessageId}

omit [DecidableEq E] in
theorem populated_of_complete {members : ReliableSenderMap E} (hsome : ∃ e, own e)
    (h : Complete own addr members) : Populated members := by
  obtain ⟨e, he⟩ := hsome
  exact List.ne_nil_of_mem ((HashMap.mem_keys_iff_lookup _ _).mpr ⟨e, h e he⟩)

omit [DecidableEq E] in
theorem smooth_of_calmly (hid : ∀ data, P data → data.getMessageId ≠ none) {node : Node E}
    {ev : Event E} (hsome : ∃ e, own e) (h : Complete own addr node.members)
    (hcalm : Calmly own P calculateHash node ev) : Smooth node ev where
  wellFed := by
    exact ⟨fun e b hinput => hid _ (hcalm.arrive e b hinput), fun _ => populated_of_complete hsome h⟩
  reached := hcalm.reached

omit [DecidableEq E] in
/-- When a call of an event loop returns, the loop receives again. -/
theorem inLoop_sendReturned (hid : ∀ data, P data → data.getMessageId ≠ none) {node : Node E}
    (h : Up own addr P node) {e : E} {send : SendPhase E}
    (hphase : (node.jobs (.eventLoop e)).send? = some send) (nanos : Nat) (result : ConnectionResult) :
    node.sendReturned calculateHash nanos (.eventLoop e) result = .receiving := by
  obtain ⟨r, hr⟩ := sendReturned_of_identified calculateHash
    (fun message _ hecho => hid _ (h.carries.echoing hecho)) hphase nanos result
  exact hr

/-- The event loops of the connections go on, and nothing happens to the connections. -/
theorem loops_step (hid : ∀ data, P data → data.getMessageId ≠ none)
    (hinj : ∀ e e', own e → own e' → addr e = addr e' → e = e') {node node' : Node E}
    {input : Input E} {ev : Event E} (h : Up own addr P node)
    (hs : (machine calculateHash E).step node input = some (node', ev))
    (hcalm : Calmly own P calculateHash node ev) :
    Complete own addr node'.members ∧ (∀ e, own e → node'.address e = some (addr e)) ∧
      (∀ e, node'.closed e = false) ∧ ∀ e, own e → (node'.jobs (.eventLoop e)).InLoop := by
  have hupdate : ∀ {j : Job E} {phase : Phase E},
      (∀ e, own e → j = .eventLoop e → phase.InLoop) →
      ∀ e, own e → (Function.update node.jobs j phase (.eventLoop e)).InLoop := by
    intro j phase hphase e he
    by_cases hj : Job.eventLoop e = j
    · rw [← hj, Function.update_self]
      exact hphase e he hj.symm
    · rw [Function.update_of_ne hj]
      exact h.loops e he
  cases stepped_of_step hs with
  | @connected e address habsent =>
      have hne : ∀ e', own e' → e' ≠ e := by
        rintro e' he' rfl
        rcases h.loops e' he' with hloop | ⟨_, _, hloop⟩
        · cases habsent.symm.trans hloop
        · cases habsent.symm.trans hloop
      refine ⟨h.members, fun e' he' => ?_, h.closed, hupdate fun _ _ _ => Or.inl rfl⟩
      show Function.update node.address e (some address) e' = some (addr e')
      rw [Function.update_of_ne (hne e' he')]
      exact h.address e' he'
  | @registered e address haddress =>
      have he := hcalm.register e rfl
      obtain rfl : addr e = address := Option.some.inj ((h.address e he).symm.trans haddress)
      refine ⟨fun e' he' => ?_, h.address, h.closed, h.loops⟩
      show (node.members.insert (addr e) e).lookup (addr e') = some e'
      rw [HashMap.lookup_insert_eq_ite]
      split
      · next heq => rw [hinj e' e he' he heq]
      · exact h.members e' he'
  | @closed e => exact absurd rfl (hcalm.close e)
  | @finished e _ _ => exact absurd rfl (hcalm.finish e)
  | @taken e m rest nanos hphase hinbox =>
      refine ⟨h.members, h.address, h.closed, hupdate ?_⟩
      exact fun _ _ _ => Or.inr ⟨_, _, rfl⟩
  | originated =>
      refine ⟨h.members, h.address, h.closed, fun e he => ?_⟩
      simpa using h.loops e he
  | @posted j nanos data members hphase =>
      refine ⟨h.members, h.address, h.closed, hupdate ?_⟩
      rintro e he rfl
      rcases h.loops e he with hloop | ⟨message, send, hloop⟩
      · rw [hloop]
        exact Or.inl rfl
      · rw [hloop]
        exact Or.inr ⟨_, _, rfl⟩
  | @refused j nanos data members hphase =>
      refine ⟨h.members, h.address, h.closed, hupdate ?_⟩
      rintro e - rfl
      exact Or.inl (inLoop_sendReturned hid h hphase nanos _)
  | @woken j nanos tx result hphase hresult =>
      refine ⟨h.members, h.address, h.closed, hupdate ?_⟩
      rintro e - rfl
      exact Or.inl (inLoop_sendReturned hid h hphase nanos _)
  | timedOut => exact ⟨h.members, h.address, h.closed, hupdate fun _ _ _ => Or.inl rfl⟩
  | @handled reach command rest _ _ =>
      have huntouched := (handleCommand_cases node reach command rest).1
      rw [huntouched.members, huntouched.address, huntouched.closed, huntouched.jobs]
      exact ⟨h.members, h.address, h.closed, h.loops⟩
  | _ => exact ⟨h.members, h.address, h.closed, h.loops⟩

/-- **A calm step keeps all connections up.** -/
theorem up_step (hid : ∀ data, P data → data.getMessageId ≠ none)
    (hinj : ∀ e e', own e → own e' → addr e = addr e' → e = e') (hsome : ∃ e, own e)
    {node node' : Node E} {input : Input E} {ev : Event E} (h : Up own addr P node)
    (hs : (machine calculateHash E).step node input = some (node', ev))
    (hcalm : Calmly own P calculateHash node ev) : Up own addr P node' := by
  have hsmooth := smooth_of_calmly hid hsome h.members hcalm
  have hadmits : Admits P (Complete own addr) calculateHash node ev :=
    ⟨hcalm.arrive, hcalm.originate, fun _ => h.members⟩
  obtain ⟨hmembers, haddress, hclosed, hloops⟩ := loops_step hid hinj h hs hcalm
  exact
    { sound := (sound_step h.sound (change_of_step hs) hsmooth.wellFed).1
      numbered := numbered_step h.sound h.numbered hs hsmooth
      carries := (carries_step (fun _ => hid _) h.carries (change_of_step hs) hadmits).1
      members := hmembers
      address := haddress
      closed := hclosed
      loops := hloops }

/-! ## Calls that wait -/

/-- Where the oneshot sender of a call that waits is. -/
def Stowed (ids : List MessageId) (node : Node E) (tx : Oneshot) : Prop :=
  (∃ command ∈ node.queue, tx ∈ EchoTask.respondTo command) ∨ node.results tx ≠ none ∨
    ∃ m ∈ ids, node.waiter m = some tx

/-- Every call that waits has a oneshot of its own. -/
structure Held (ids : List MessageId) (node : Node E) : Prop where
  kept : ∀ j tx, (node.jobs j).send? = some (.waiting tx) → Stowed ids node tx
  opened : ∀ j tx, (node.jobs j).send? = some (.waiting tx) → tx < node.opened
  distinct : ∀ j j' tx, (node.jobs j).send? = some (.waiting tx) →
    (node.jobs j').send? = some (.waiting tx) → j = j'

omit [DecidableEq E] in
/-- A step that makes no call wait. -/
theorem held_of_jobs {node node' : Node E} (h : Held ids node)
    (hjobs : ∀ j tx, (node'.jobs j).send? = some (.waiting tx) → (node.jobs j).send? = some (.waiting tx))
    (hqueue : node'.queue = node.queue) (hactor : node'.actor = node.actor)
    (hresults : node'.results = node.results) (hopened : node'.opened = node.opened) :
    Held ids node' where
  kept := by
    intro j tx hj
    have hkept := h.kept j tx (hjobs j tx hj)
    unfold Stowed waiter at hkept ⊢
    rwa [hqueue, hresults, hactor]
  opened := by
    intro j tx hj
    rw [hopened]
    exact h.opened j tx (hjobs j tx hj)
  distinct := fun j j' tx hj hj' => h.distinct j j' tx (hjobs j tx hj) (hjobs j' tx hj')

/-- A call begins to wait when its Send is handed over. -/
theorem waiting_cases (hid : ∀ data, P data → data.getMessageId ≠ none) {node node' : Node E}
    {input : Input E} {ev : Event E} (h : Up own addr P node)
    (hs : (machine calculateHash E).step node input = some (node', ev)) {j : Job E} {tx : Oneshot}
    (hwaiting : (node'.jobs j).send? = some (.waiting tx)) :
    (node.jobs j).send? = some (.waiting tx) ∨
      (tx = node.opened ∧ ∃ nanos, ev.input = .post j nanos ∧ ev.handed.isSome = true) := by
  have hupdate : ∀ {j' : Job E} {phase : Phase E}, phase.send? ≠ some (.waiting tx) →
      (Function.update node.jobs j' phase j).send? = some (.waiting tx) →
      (node.jobs j).send? = some (.waiting tx) := by
    intro j' phase hphase hafter
    by_cases heq : j = j'
    · rw [heq, Function.update_self] at hafter
      exact absurd hafter hphase
    · rwa [Function.update_of_ne heq] at hafter
  have hreturned : ∀ {j' : Job E} {send : SendPhase E} (nanos : Nat) (result : ConnectionResult),
      (node.jobs j').send? = some send →
      (node.sendReturned calculateHash nanos j' result).send? ≠ some (.waiting tx) := by
    intro j' send nanos result hphase
    obtain ⟨r, hr⟩ := sendReturned_of_identified calculateHash
      (fun message _ hecho => hid _ (h.carries.echoing hecho)) hphase nanos result
    rw [hr]
    cases j' <;> simp [serviceReturned, Phase.send?]
  cases stepped_of_step hs with
  | connected => exact Or.inl (hupdate (by simp [Phase.send?]) hwaiting)
  | taken => exact Or.inl (hupdate (by simp [Phase.send?]) hwaiting)
  | finished => exact Or.inl (hupdate (by simp [Phase.send?]) hwaiting)
  | originated => exact Or.inl (hupdate (by simp [Phase.send?]) hwaiting)
  | timedOut => exact Or.inl (hupdate (by simp [Phase.send?]) hwaiting)
  | refused hphase => exact Or.inl (hupdate (hreturned _ _ hphase) hwaiting)
  | woken hphase _ => exact Or.inl (hupdate (hreturned _ _ hphase) hwaiting)
  | @posted j' nanos data members hphase =>
      by_cases heq : j = j'
      · subst heq
        refine Or.inr ⟨?_, nanos, rfl, rfl⟩
        simp only [Function.update_self] at hwaiting
        cases hp : node.jobs j <;> simp_all [Phase.send?, Phase.setSend]
      · simp only [Function.update_of_ne heq] at hwaiting
        exact Or.inl hwaiting
  | @handled reach command rest _ _ =>
      rw [(handleCommand_cases node reach command rest).1.jobs] at hwaiting
      exact Or.inl hwaiting
  | _ => exact Or.inl hwaiting

theorem held_step (hid : ∀ data, P data → data.getMessageId ≠ none)
    (hids : ∀ data m, P data → data.getMessageId = some m → m ∈ ids) {node node' : Node E}
    {input : Input E} {ev : Event E}
    (hup : Up own addr P node) (h : Held ids node)
    (hs : (machine calculateHash E).step node input = some (node', ev))
    (hcalm : Calmly own P calculateHash node ev) : Held ids node' := by
  have hnew : ∀ j tx, (node'.jobs j).send? = some (.waiting tx) → _ :=
    fun j tx => waiting_cases hid hup hs
  cases stepped_of_step hs with
  | @posted j nanos data members hphase =>
      refine ⟨?_, ?_, ?_⟩
      · intro j' tx hj'
        rcases hnew j' tx hj' with hold | ⟨rfl, -⟩
        · rcases h.kept j' tx hold with ⟨command, hmem, htx⟩ | hrest
          · exact Or.inl ⟨command, List.mem_append_left _ hmem, htx⟩
          · exact Or.inr hrest
        · exact Or.inl ⟨_, List.mem_append_right _ List.mem_cons_self, by simp [EchoTask.respondTo]⟩
      · intro j' tx hj'
        rcases hnew j' tx hj' with hold | ⟨rfl, -⟩
        · exact Nat.lt_succ_of_lt (h.opened j' tx hold)
        · exact Nat.lt_succ_self _
      · -- the new call waits for a oneshot that no other call has
        intro j₁ j₂ tx h₁ h₂
        rcases hnew j₁ tx h₁ with hold₁ | ⟨rfl, _, hinput₁, -⟩
        · rcases hnew j₂ tx h₂ with hold₂ | ⟨rfl, -⟩
          · exact h.distinct j₁ j₂ tx hold₁ hold₂
          · exact absurd (h.opened j₁ _ hold₁) (Nat.lt_irrefl _)
        · rcases hnew j₂ _ h₂ with hold₂ | ⟨-, _, hinput₂, -⟩
          · exact absurd (h.opened j₂ _ hold₂) (Nat.lt_irrefl _)
          · cases hinput₁
            cases hinput₂
            rfl
  | @handled reach command rest hlive hqueue =>
      obtain rfl := hcalm.reached reach rfl
      have huntouched := (handleCommand_cases node (fun _ => true) command rest).1
      have hcommand := hup.carries.queue command (by rw [hqueue]; exact List.mem_cons_self)
      obtain ⟨data, members, tx₀, m, rfl, hdataId, hrest, hwaiter, hresults⟩ :=
        handleCommand_smooth hup.sound hqueue
      have hm : m ∈ ids := by
        obtain ⟨data', members', tx', heq, hdata, -⟩ := hcommand
        cases heq
        exact hids data m hdata hdataId
      refine ⟨?_, ?_, ?_⟩
      · intro j tx hj
        rw [huntouched.jobs] at hj
        rcases h.kept j tx hj with ⟨command, hmem, htx⟩ | hresult | ⟨m', hm', hw⟩
        · rw [hqueue] at hmem
          rcases List.mem_cons.mp hmem with rfl | hold
          · -- it is the turn of this call: its sender is stored
            obtain rfl : tx = tx₀ := by simpa [EchoTask.respondTo] using htx
            exact Or.inr (Or.inr ⟨m, hm, by rw [hwaiter, if_pos rfl]⟩)
          · exact Or.inl ⟨command, by rw [hrest]; exact hold, htx⟩
        · refine Or.inr (Or.inl ?_)
          rw [hresults]
          split
          · next old _ =>
              by_cases htx : tx = old
              · simp [htx]
              · rwa [Function.update_of_ne htx]
          · exact hresult
        · by_cases hm₁ : m' = m
          · -- its sender is replaced
            refine Or.inr (Or.inl ?_)
            rw [hm₁] at hw
            simp [hresults, hw]
          · exact Or.inr (Or.inr ⟨m', hm', by rw [hwaiter, if_neg hm₁]; exact hw⟩)
      · rw [huntouched.jobs, huntouched.opened]
        exact h.opened
      · rw [huntouched.jobs]
        exact h.distinct
  | _ =>
      refine held_of_jobs h (fun j tx hj => (hnew j tx hj).resolve_right ?_) rfl rfl rfl rfl
      rintro ⟨-, -, -, hhanded⟩
      cases hhanded

/-! ## A node at rest -/

/-- The tasks of the node, its actor included, have nothing to do but wait. -/
structure AtRest (own : E → Prop) (node : Node E) : Prop where
  queue : node.queue = []
  posting : ∀ j data members, (node.jobs j).send? ≠ some (.posting data members)
  waiting : ∀ j tx, (node.jobs j).send? = some (.waiting tx) → node.results tx = none
  inbox : ∀ e, own e → node.jobs (.eventLoop e) = .receiving → node.inbox e = []

/-- What a task of the node can do by itself. -/
def Internal (own : E → Prop) : Input E → Prop
  | .receive e _ => own e
  | .post _ _ => True
  | .wake _ _ => True
  | .actor _ => True
  | _ => False

theorem atRest_of_step {node : Node E} (halive : node.actor.isSome = true)
    (h : ∀ input, Internal own input → (machine calculateHash E).step node input = none) :
    AtRest own node := by
  obtain ⟨a, ha⟩ := Option.isSome_iff_exists.mp halive
  have hqueue : node.queue = [] := by
    have hactor := h (.actor fun _ => true) trivial
    cases hq : node.queue with
    | nil => rfl
    | cons command rest => simp [machine, step, ha, hq] at hactor
  refine ⟨hqueue, ?_, ?_, ?_⟩
  · intro j data members hphase
    have hpost := h (.post j 0) trivial
    rw [step_post calculateHash hphase halive (by simp [hqueue, queueCapacity])] at hpost
    cases hpost
  · intro j tx hphase
    have hwake := h (.wake j 0) trivial
    simpa [machine, step, hphase] using hwake
  · intro e he hphase
    have hreceive := h (.receive e 0) he
    cases hinbox : node.inbox e with
    | nil => rfl
    | cons message rest => simp [machine, step, hphase, hinbox] at hreceive

/-- Conversely, at rest no task can take a step. -/
theorem step_eq_none_of_atRest {node : Node E} (h : AtRest own node) {input : Input E}
    (hinput : Internal own input) : (machine calculateHash E).step node input = none := by
  cases input with
  | receive e nanos =>
      by_cases hphase : node.jobs (.eventLoop e) = .receiving
      · simp [machine, step, hphase, h.inbox e hinput hphase]
      · simp only [machine, step]
        split
        · next hreceiving _ => exact absurd hreceiving hphase
        · rfl
  | post j nanos =>
      simp only [machine, step]
      split
      · next data members _ hposting _ => exact absurd hposting (h.posting j data members)
      · next data members hposting _ => exact absurd hposting (h.posting j data members)
      · rfl
  | wake j nanos =>
      simp only [machine, step]
      split
      · next tx hwaiting => rw [h.waiting j tx hwaiting, Option.map_none]
      · rfl
  | actor reach =>
      simp only [machine, step, h.queue]
      split
      · next hcons => cases hcons
      · rfl
  | _ => cases hinput

omit [DecidableEq E] in
/-- At rest, an event loop receives, or its oneshot sender is stored under an id. -/
theorem receiving_or_stored {node : Node E} (hup : Up own addr P node) (hheld : Held ids node)
    (hrest : AtRest own node) {e : E} (he : own e) :
    node.jobs (.eventLoop e) = .receiving ∨
      ∃ tx, (node.jobs (.eventLoop e)).send? = some (.waiting tx) ∧ ∃ m ∈ ids, node.waiter m = some tx := by
  rcases hup.loops e he with hreceiving | ⟨message, send, hecho⟩
  · exact Or.inl hreceiving
  · have hsend : (node.jobs (.eventLoop e)).send? = some send := by
      rw [hecho]
      rfl
    cases send with
    | posting data members => exact absurd hsend (hrest.posting _ data members)
    | waiting tx =>
        rcases hheld.kept _ tx hsend with ⟨command, hmem, -⟩ | hresult | hstored
        · rw [hrest.queue] at hmem
          cases hmem
        · exact absurd (hrest.waiting _ tx hsend) hresult
        · exact Or.inr ⟨tx, hsend, hstored⟩

/-- How many of the messages are broadcasts. -/
def broadcasts (messages : List Message) : Nat :=
  messages.countP fun
    | .broadcastMessage _ => true
    | .unicastMessage _ => false

def Phase.isPosting (phase : Phase E) : Bool :=
  match phase.send? with
  | some (.posting _ _) => true
  | _ => false

/-- The broadcasts that connection `e` has brought and its event loop has not handed over. -/
def pending (node : Node E) (e : E) : Nat :=
  broadcasts (node.inbox e) + (node.jobs (.eventLoop e)).isPosting.toNat

/-- A broadcast arrives over connection `e`. -/
def Event.brings (e : E) (ev : Event E) : Bool :=
  match ev.input with
  | .arrive e' (.broadcastMessage _) => e' = e
  | _ => false

/-- The event loop of connection `e` hands a Send over. -/
def Event.forwards (e : E) (ev : Event E) : Bool :=
  match ev.input with
  | .post (.eventLoop e') _ => e' = e && ev.handed.isSome
  | _ => false

theorem forwards_iff {e : E} {ev : Event E} :
    ev.forwards e = true ↔ ∃ nanos, ev.input = .post (.eventLoop e) nanos ∧ ev.handed.isSome = true := by
  unfold Event.forwards
  split
  · next e' nanos hinput => simp [hinput]
  · next hinput =>
      simp only [Bool.false_eq_true, false_iff]
      rintro ⟨nanos, heq, -⟩
      exact hinput e nanos heq

/-- **No broadcast is dropped on its way through an event loop**, and none is made up. -/
theorem pending_step (hid : ∀ data, P data → data.getMessageId ≠ none) {node node' : Node E}
    {input : Input E} {ev : Event E} (h : Up own addr P node) {e : E} (he : own e)
    (hs : (machine calculateHash E).step node input = some (node', ev))
    (hcalm : Calmly own P calculateHash node ev) :
    (ev.brings e).toNat + node.pending e = node'.pending e + (ev.forwards e).toNat := by
  have hsame : ev.brings e = false → ev.forwards e = false → node'.inbox e = node.inbox e →
      node'.jobs (.eventLoop e) = node.jobs (.eventLoop e) →
      (ev.brings e).toNat + node.pending e = node'.pending e + (ev.forwards e).toNat := by
    intro hbrings hforwards hinbox hjob
    rw [hbrings, hforwards, pending, pending, hinbox, hjob]
    simp
  -- another event loop, or a task that is not one
  have hother : ∀ {j : Job E} {phase : Phase E}, .eventLoop e ≠ j →
      Function.update node.jobs j phase (.eventLoop e) = node.jobs (.eventLoop e) :=
    fun hne => Function.update_of_ne hne _ _
  cases stepped_of_step hs with
  | @arrived e₁ message =>
      by_cases heq : e = e₁
      · subst heq
        cases message with
        | unicastMessage u => simp [Event.brings, Event.forwards, Event.quiet, pending, broadcasts]
        | broadcastMessage b =>
            have hone : broadcasts (node.inbox e ++ [.broadcastMessage b]) =
                broadcasts (node.inbox e) + 1 := by simp [broadcasts]
            simp only [Event.brings, Event.forwards, Event.quiet, pending, Function.update_self, hone,
              decide_true, Bool.toNat_true, Bool.toNat_false]
            omega
      · refine hsame ?_ rfl (Function.update_of_ne heq _ _) rfl
        cases message <;> simp [Event.brings, Event.quiet, Ne.symm heq]
  | @answered e₁ m rest nanos frames hinbox _ =>
      by_cases heq : e = e₁
      · subst heq
        simp [Event.brings, Event.forwards, pending, broadcasts, hinbox]
      · exact hsame rfl rfl (Function.update_of_ne heq _ _) rfl
  | @taken e₁ m rest nanos hphase hinbox =>
      by_cases heq : e = e₁
      · subst heq
        simp [Event.brings, Event.forwards, Event.quiet, pending, broadcasts, hinbox, hphase,
          Phase.isPosting, Phase.send?]
      · exact hsame rfl rfl (Function.update_of_ne heq _ _) (hother (by simpa using heq))
  | @posted j nanos data members hphase =>
      by_cases heq : .eventLoop e = j
      · subst heq
        have hbefore : (node.jobs (.eventLoop e)).isPosting = true := by simp [Phase.isPosting, hphase]
        have hafter : ((node.jobs (.eventLoop e)).setSend (.waiting node.opened)).isPosting = false := by
          cases hp : node.jobs (.eventLoop e) <;> simp_all [Phase.isPosting, Phase.send?, Phase.setSend]
        simp [Event.brings, Event.forwards, pending, hbefore, hafter]
      · refine hsame rfl ?_ rfl (hother heq)
        cases j with
        | eventLoop e₁ => simpa [Event.forwards] using fun hne => heq (by rw [hne])
        | service i => rfl
  | refused hphase =>
      obtain ⟨-, hhanded⟩ := handed_of_post h.sound.alive hphase hs
      cases hhanded
  | @woken j nanos tx result hphase _ =>
      by_cases heq : .eventLoop e = j
      · subst heq
        have hbefore : (node.jobs (.eventLoop e)).isPosting = false := by simp [Phase.isPosting, hphase]
        have hafter : (node.sendReturned calculateHash nanos (.eventLoop e) result).isPosting = false := by
          rw [inLoop_sendReturned hid h hphase]
          rfl
        simp [Event.brings, Event.forwards, Event.quiet, pending, setJob, hbefore, hafter]
      · exact hsame rfl rfl rfl (hother heq)
  | @timedOut e₁ send hphase =>
      refine hsame rfl rfl rfl (hother ?_)
      rintro ⟨⟩
      rcases h.loops e he with hloop | ⟨_, _, hloop⟩
      · cases hphase.symm.trans hloop
      · cases hphase.symm.trans hloop
  | @connected e₁ address habsent =>
      refine hsame rfl rfl rfl (hother ?_)
      rintro ⟨⟩
      rcases h.loops e he with hloop | ⟨_, _, hloop⟩
      · cases habsent.symm.trans hloop
      · cases habsent.symm.trans hloop
  | originated => exact hsame rfl rfl rfl (by simp)
  | @handled reach command rest _ _ =>
      have huntouched := (handleCommand_cases node reach command rest).1
      exact hsame rfl rfl (by rw [huntouched.inbox]) (by rw [huntouched.jobs])
  | @finished e₁ _ _ => exact absurd rfl (hcalm.finish e₁)
  | _ => exact hsame rfl rfl rfl rfl

/-- The queue grows by what is handed over and shrinks by what is handled. -/
theorem queue_step {node node' : Node E} {input : Input E} {ev : Event E}
    (h : Up own addr P node) (hs : (machine calculateHash E).step node input = some (node', ev))
    (hcalm : Calmly own P calculateHash node ev) :
    ev.handed.isSome.toNat + node.queue.length = ev.processed.isSome.toNat + node'.queue.length := by
  cases stepped_of_step hs with
  | posted => simp [Nat.add_comm]
  | @handled reach command rest hlive hqueue =>
      obtain rfl := hcalm.reached reach rfl
      obtain ⟨data, members, tx, m, rfl, -, hrest, -⟩ := handleCommand_smooth h.sound hqueue
      rw [hrest, hqueue]
      simp [Nat.add_comm]
  | _ => rfl

/-- A call of the main task that is to be posted stays so until its Send is handed over. -/
theorem posting_step {node node' : Node E} {input : Input E} {ev : Event E} (h : Up own addr P node)
    (hs : (machine calculateHash E).step node input = some (node', ev)) {i : Nat} {data : Message}
    {members : ReliableSenderMap E}
    (hphase : (node.jobs (.service i)).send? = some (.posting data members)) :
    (node'.jobs (.service i)).send? = some (.posting data members) ∨ ev.handed.isSome = true := by
  by_cases hpost : ∃ nanos, input = .post (.service i) nanos
  · obtain ⟨nanos, rfl⟩ := hpost
    exact Or.inr (by rw [(handed_of_post h.sound.alive hphase hs).2]; rfl)
  · by_cases horiginate : ∃ message nanos, input = .originate message nanos
    · -- the call that is made is another one
      obtain ⟨message, nanos, rfl⟩ := horiginate
      have hne : Job.service i ≠ (.service node.services : Job E) := by
        rintro ⟨⟩
        simp [h.numbered.services _ (Nat.le_refl _), Phase.send?] at hphase
      cases stepped_of_step hs with
      | originated =>
          simp only [Function.update_of_ne hne]
          exact Or.inl hphase
    · rw [service_kept hs (fun message nanos heq => horiginate ⟨message, nanos, heq⟩)
        (fun nanos heq => hpost ⟨nanos, heq⟩)]
      · exact Or.inl hphase
      · rintro nanos rfl
        cases stepped_of_step hs with
        | woken hwaiting _ => simp [hphase] at hwaiting

end Up

end FrostFederation.Node
