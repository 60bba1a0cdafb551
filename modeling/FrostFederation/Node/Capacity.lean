/-
# FrostFederation.Node.Capacity — how many broadcasts a node can take part in.

Of all the calls of `EchoBroadcastHandle::send` with one message id the last one waits for ever.  An
event loop makes this call without a timeout: the timeout of `respond_to_broadcast_message` is around the
service call that comes after it, and that call returns at once, because the protocol has no response to
a package.  So every message id a node has handed to its actor OCCUPIES one of the node's tasks, and no
two ids the same one.

What is left is counted here.  The tasks that are not occupied by an id are at most the event loops and
main-task calls ever started, less the ids ever handed over.  With one connection to each of `k` peers, a
node that originates nothing takes part in `k` broadcasts; after that no event loop of it ever receives
again.
-/
import FrostFederation.Node.Waiting
import Mathlib.Combinatorics.Enumerative.DoubleCounting

namespace FrostFederation.Node

open FrostFederation.Lib
open FrostFederation.Protocol
open FrostFederation.EchoBroadcast (ReliableSenderMap EchoBroadcastMessage EchoTask)

variable {E : Type} [DecidableEq E] {calculateHash : String → MessageId}

/-! ## What is counted -/

/-- The message id of the Send that is handed over. -/
def Event.handedId? (ev : Event E) : Option MessageId :=
  match ev.handed with
  | some (.send data _ _) => data.getMessageId
  | _ => none

/-- The message ids of the Sends that were handed over, in order. -/
def handedIds (tr : List (Event E)) : List MessageId := tr.filterMap Event.handedId?

/-- The task that begins with a step: an event loop, or a call of the main task. -/
def begun (node : Node E) : Input E → Option (Job E)
  | .connect e _ => some (.eventLoop e)
  | .originate _ _ => some (.service node.services)
  | _ => none

def Event.begins (ev : Event E) : Bool :=
  match ev.input with
  | .connect _ _ => true
  | .originate _ _ => true
  | _ => false

/-- How many tasks have begun. -/
def begunTasks (tr : List (Event E)) : Nat := tr.countP Event.begins

omit [DecidableEq E] in
theorem begins_eq_isSome_begun (node : Node E) (ev : Event E) :
    ev.begins = (begun node ev.input).isSome := by
  unfold Event.begins begun
  split <;> simp_all

omit [DecidableEq E] in
theorem handedId?_eq_some_iff {ev : Event E} {m : MessageId} :
    ev.handedId? = some m ↔ ev.handsSend m = true := by
  unfold Event.handedId? Event.handsSend
  split <;> simp_all

/-! ## Every task has begun -/

theorem begun_of_step {node node' : Node E} {input : Input E} {ev : Event E} {j : Job E}
    (hs : (machine calculateHash E).step node input = some (node', ev))
    (hj : node'.jobs j ≠ .absent) : node.jobs j ≠ .absent ∨ begun node ev.input = some j := by
  -- a task that moves was there before
  have hmoved : ∀ {j' : Job E} {phase : Phase E}, node.jobs j' ≠ .absent →
      Function.update node.jobs j' phase j ≠ .absent → node.jobs j ≠ .absent := by
    intro j' phase hthere hafter
    by_cases heq : j = j'
    · rwa [heq]
    · rwa [Function.update_of_ne heq] at hafter
  have hcalls : ∀ {j' : Job E} {send : SendPhase E}, (node.jobs j').send? = some send →
      node.jobs j' ≠ .absent := by
    intro j' send hsend habsent
    rw [habsent] at hsend
    cases hsend
  cases stepped_of_step hs with
  | @connected e _ _ =>
      by_cases heq : j = .eventLoop e
      · exact Or.inr (by rw [heq]; rfl)
      · refine Or.inl ?_
        rwa [← Function.update_of_ne heq Phase.receiving node.jobs]
  | originated =>
      by_cases heq : j = .service node.services
      · exact Or.inr (by rw [heq]; rfl)
      · refine Or.inl ?_
        simpa [Function.update_of_ne heq] using hj
  | taken hphase _ => exact Or.inl (hmoved (by simp [hphase]) hj)
  | finished hphase => exact Or.inl (hmoved (by simp [hphase]) hj)
  | timedOut hphase => exact Or.inl (hmoved (by simp [hphase]) hj)
  | posted hphase => exact Or.inl (hmoved (hcalls hphase) hj)
  | refused hphase => exact Or.inl (hmoved (hcalls hphase) hj)
  | woken hphase _ => exact Or.inl (hmoved (hcalls hphase) hj)
  | handled =>
      rw [(handleCommand_cases node _ _ _).1.jobs] at hj
      exact Or.inl hj
  | _ => exact Or.inl hj

/-! ## The service call of an event loop returns at once -/

theorem notServing_step {node node' : Node E} {input : Input E} {ev : Event E} (hsound : Sound node)
    (h : ∀ e send, node.jobs (.eventLoop e) ≠ .serving send)
    (hs : (machine calculateHash E).step node input = some (node', ev)) (e : E) (send : SendPhase E) :
    node'.jobs (.eventLoop e) ≠ .serving send := by
  have hupdate : ∀ {j : Job E} {phase : Phase E}, (j = .eventLoop e → phase ≠ .serving send) →
      Function.update node.jobs j phase (.eventLoop e) ≠ .serving send := by
    intro j phase hphase
    by_cases hj : j = .eventLoop e
    · rw [hj, Function.update_self]
      exact hphase hj
    · rw [Function.update_of_ne (Ne.symm hj)]
      exact h e send
  have hreturned : ∀ {j : Job E} {send' : SendPhase E} (nanos : Nat) (result : ConnectionResult),
      (node.jobs j).send? = some send' → j = .eventLoop e →
      node.sendReturned calculateHash nanos j result ≠ .serving send := by
    rintro j send' nanos result hphase rfl
    obtain ⟨r, hr⟩ := sendReturned_of_identified calculateHash
      (fun message _ hecho => hsound.carries.echoing hecho) hphase nanos result
    rw [hr]
    exact nofun
  cases stepped_of_step hs with
  | connected => exact hupdate fun _ => nofun
  | taken => exact hupdate fun _ => nofun
  | finished => exact hupdate fun _ => nofun
  | timedOut => exact hupdate fun _ => nofun
  | originated => simpa using h e send
  | @posted j nanos data members hphase =>
      refine hupdate ?_
      rintro rfl
      cases hp : node.jobs (.eventLoop e) with
      | serving send' => exact absurd hp (h e send')
      | _ => simp [Phase.setSend]
  | refused hphase => exact hupdate (hreturned _ _ hphase)
  | woken hphase _ => exact hupdate (hreturned _ _ hphase)
  | handled =>
      rw [(handleCommand_cases node _ _ _).1.jobs]
      exact h e send
  | _ => exact h e send

/-! ## Every id occupies a task -/

omit [DecidableEq E] in
/-- A oneshot sender waits for one id. -/
theorem waits_inj {m m' : MessageId} {tx : Oneshot} {node : Node E} (h : Waits m tx node)
    (h' : Waits m' tx node) : m = m' := by
  cases h with
  | @queued before after data members hqueue hid hbefore hafter hwaiter =>
      cases h' with
      | @queued before' after' data' members' hqueue' hid' =>
          -- the Send with this oneshot sender is in the queue once
          have hmem : .send data' members' tx ∈ before ++ .send data members tx :: after := by
            rw [← hqueue, hqueue']
            exact List.mem_append_right _ List.mem_cons_self
          have hits : tx ∈ EchoTask.respondTo (.send data' members' tx : EchoBroadcastMessage E) := by
            simp [EchoTask.respondTo]
          rcases List.mem_append.mp hmem with hold | hrest
          · exact absurd hits (hbefore _ hold)
          · rcases List.mem_cons.mp hrest with heq | hnew
            · cases heq
              exact Option.some.inj (hid.symm.trans hid')
            · exact absurd hits (hafter _ hnew).1
      | stored _ hwaiter' => exact absurd ((hwaiter' m').mpr rfl) (hwaiter m')
  | stored _ hwaiter =>
      cases h' with
      | queued _ _ _ _ hwaiter' => exact absurd ((hwaiter m).mpr rfl) (hwaiter' m)
      | stored _ hwaiter' => exact (hwaiter' m).mp ((hwaiter m).mpr rfl)

/-- Task `j` waits for the answer to a Send with id `m`, and nothing is on the way that would bring
it one. -/
def Occupies (m : MessageId) (node : Node E) (j : Job E) : Prop :=
  ∃ tx, (node.jobs j).send? = some (.waiting tx) ∧ node.results tx = none ∧ Waits m tx node

/-- What a run leaves behind: an occupied task for every id. -/
structure Occupied (tr : List (Event E)) (node : Node E) : Prop where
  sound : Sound node
  numbered : Numbered node
  notServing : ∀ e send, node.jobs (.eventLoop e) ≠ .serving send
  ids : ∀ m ∈ handedIds tr, ∃ j, Occupies m node j
  tasks : ∃ jobs : List (Job E), jobs.length = begunTasks tr ∧ ∀ j, node.jobs j ≠ .absent → j ∈ jobs

omit [DecidableEq E] in
theorem occupied_new (address : String) : Occupied [] (new.withBindAddress address : Node E) where
  sound := sound_new address
  numbered := numbered_new address
  notServing := fun _ _ => nofun
  ids := by simp [handedIds]
  tasks := ⟨[], rfl, fun _ hj => absurd rfl hj⟩

/-- An id that is not handed over again goes on occupying its task. -/
theorem occupies_step {m : MessageId} {j : Job E} {tr : List (Event E)} {node node' : Node E}
    {input : Input E} {ev : Event E} (h : Occupied tr node) (hm : Occupies m node j)
    (hs : (machine calculateHash E).step node input = some (node', ev)) (hsmooth : Smooth node ev)
    (hother : ev.handsSend m = false) : Occupies m node' j := by
  obtain ⟨tx, hwaiting, hresult, hwaits⟩ := hm
  obtain ⟨hwaits', hresult'⟩ :=
    waits_step h.sound (lt_of_waits h.numbered hwaits) hwaits hresult hs hsmooth hother
  refine ⟨tx, waiting_step h.numbered hwaiting hresult hs ?_, hresult', hwaits'⟩
  -- no timeout passes: it is around the service call
  rintro e hinput rfl
  cases stepped_of_step hs with
  | timedOut hserving => exact h.notServing _ _ hserving
  | _ => cases hinput

/-- The task that hands over an id is occupied by it. -/
theorem occupies_of_handed {m : MessageId} {tr : List (Event E)} {node node' : Node E} {input : Input E}
    {ev : Event E} (h : Occupied tr node)
    (hs : (machine calculateHash E).step node input = some (node', ev)) (hm : ev.handedId? = some m) :
    ∃ j, Occupies m node' j := by
  have hposted : ∃ j nanos data members tx, ev.input = .post j nanos ∧
      ev.handed = some (.send data members tx) := by
    cases stepped_of_step hs with
    | posted => exact ⟨_, _, _, _, _, rfl, rfl⟩
    | _ => cases hm
  obtain ⟨j, nanos, data, members, tx, hinput, hhanded⟩ := hposted
  have hid : data.getMessageId = some m := by
    rwa [Event.handedId?, hhanded] at hm
  obtain ⟨hwaits, hresult, hwaiting⟩ := waits_of_posted h.numbered hs hinput hhanded hid
  exact ⟨j, tx, hwaiting, hresult, hwaits⟩

/-- **A step keeps the account.** -/
theorem occupied_step {tr : List (Event E)} {node node' : Node E} {input : Input E} {ev : Event E}
    (h : Occupied tr node) (hs : (machine calculateHash E).step node input = some (node', ev))
    (hsmooth : Smooth node ev) : Occupied (tr ++ [ev]) node' where
  sound := (sound_step h.sound (change_of_step hs) hsmooth.wellFed).1
  numbered := numbered_step h.sound h.numbered hs hsmooth
  notServing := notServing_step h.sound h.notServing hs
  ids := by
    intro m hm
    by_cases hagain : ev.handedId? = some m
    · exact occupies_of_handed h hs hagain
    · have hold : m ∈ handedIds tr := by
        rw [handedIds, List.filterMap_append] at hm
        rcases List.mem_append.mp hm with hold | hnew
        · exact hold
        · obtain ⟨ev', hev', heq⟩ := List.mem_filterMap.mp hnew
          rw [List.mem_singleton.mp hev'] at heq
          exact absurd heq hagain
      obtain ⟨j, hj⟩ := h.ids m hold
      have hother : ev.handsSend m = false := by
        rw [handedId?_eq_some_iff] at hagain
        simpa using hagain
      exact ⟨j, occupies_step h hj hs hsmooth hother⟩
  tasks := by
    obtain ⟨jobs, hlength, hall⟩ := h.tasks
    refine ⟨jobs ++ (begun node ev.input).toList, ?_, ?_⟩
    · rw [List.length_append, hlength, begunTasks, begunTasks, List.countP_append]
      congr 1
      rw [List.countP_singleton, begins_eq_isSome_begun node ev]
      cases begun node ev.input <;> rfl
    · intro j hj
      rcases begun_of_step hs hj with hold | hnew
      · exact List.mem_append_left _ (hall j hold)
      · exact List.mem_append_right _ (Option.mem_toList.mpr hnew)

/-- **Every broadcast costs the node a task.**  As long as no reliable send fails, the broadcasts that
arrive carry ids and nobody broadcasts to an empty membership: the message ids a node has ever handed
over, and the tasks of it that do not wait in a call of `EchoBroadcastHandle::send`, are together no more
than the tasks it has ever started. -/
theorem handedIds_add_free_le {address : String} {tr : List (Event E)} {node : Node E}
    (hrun : (machine calculateHash E).RunWith Smooth (new.withBindAddress address) tr node)
    {free : Finset (Job E)} (hthere : ∀ j ∈ free, node.jobs j ≠ .absent)
    (hfree : ∀ j ∈ free, ∀ tx, (node.jobs j).send? ≠ some (.waiting tx)) :
    (handedIds tr).toFinset.card + free.card ≤ begunTasks tr := by
  have h : Occupied tr node :=
    hrun.invariant (occupied_new address) fun _ ih hs hsmooth => occupied_step ih hs hsmooth
  obtain ⟨jobs, hlength, hall⟩ := h.tasks
  have hids : (handedIds tr).toFinset.card ≤ (jobs.toFinset \ free).card := by
    refine Finset.card_le_card_of_forall_subsingleton (fun m j => Occupies m node j) ?_ ?_
    · intro m hm
      obtain ⟨j, hj⟩ := h.ids m (List.mem_toFinset.mp hm)
      obtain ⟨tx, hwaiting, -⟩ := id hj
      refine ⟨j, Finset.mem_sdiff.mpr ⟨List.mem_toFinset.mpr (hall j ?_), ?_⟩, hj⟩
      · intro habsent
        rw [habsent] at hwaiting
        cases hwaiting
      · exact fun hmem => hfree j hmem tx hwaiting
    · rintro j - m ⟨-, tx, hwaiting, -, hwaits⟩ m' ⟨-, tx', hwaiting', -, hwaits'⟩
      obtain rfl : tx = tx' := by
        cases hwaiting.symm.trans hwaiting'
        rfl
      exact waits_inj hwaits hwaits'
  have hsub : free ⊆ jobs.toFinset := fun j hj => List.mem_toFinset.mpr (hall j (hthere j hj))
  calc (handedIds tr).toFinset.card + free.card
      ≤ (jobs.toFinset \ free).card + free.card := Nat.add_le_add_right hids _
    _ = jobs.toFinset.card := Finset.card_sdiff_add_card_eq_card hsub
    _ ≤ begunTasks tr := by
        rw [← hlength]
        exact List.toFinset_card_le jobs

/-- A node with two connections forwards a package that came over the first. -/
def firstLoopOccupied : List (Input Bool) :=
  [.connect false "127.0.0.1:50001", .register false, .connect true "127.0.0.1:50002", .register true,
    .arrive false (.package "localhost:6681" "hello" 1), .receive false 0, .post (.eventLoop false) 0,
    .actor fun _ => true]

/-- The second event loop is the only task left. -/
theorem handedIds_add_free_le_firstLoopOccupied :
    ∃ tr node, (machine hashLength Bool).execWith fed (new.withBindAddress "localhost:6680")
        firstLoopOccupied = some (node, tr) ∧
      handedIds tr = [⟨1⟩] ∧ begunTasks tr = 2 ∧
      (handedIds tr).toFinset.card + ({.eventLoop true} : Finset (Job Bool)).card ≤ begunTasks tr := by
  obtain ⟨node, tr, hexec, hinputs, hreceiving, hids, hbegun⟩ : ∃ node tr,
      (machine hashLength Bool).execWith fed (new.withBindAddress "localhost:6680") firstLoopOccupied =
        some (node, tr) ∧ tr.map Event.input = firstLoopOccupied ∧
      node.jobs (.eventLoop true) = .receiving ∧ handedIds tr = [⟨1⟩] ∧ begunTasks tr = 2 :=
    ⟨_, _, rfl, rfl, rfl, rfl, rfl⟩
  have hrun := smooth_of_execWith hexec ?_
  · refine ⟨tr, node, hexec, hids, hbegun, handedIds_add_free_le hrun ?_ ?_⟩
    · simp [hreceiving]
    · simp [hreceiving, Phase.send?]
  · intro ev hev reach hreach
    have hmem : ev.input ∈ firstLoopOccupied := hinputs ▸ List.mem_map_of_mem hev
    simpa [hreach, firstLoopOccupied] using hmem

end FrostFederation.Node
