/-
# FrostFederation.Node.Waiting — when a call of `EchoBroadcastHandle::send` comes back.

A node never posts an Echo to its own actor, so no broadcast of it is ever completed.  If no reliable
send fails and no command panics, there is only one way in which a call can come back: the actor
handles another Send with the same message id, whose waiter takes the place of the first one in
`message_client_txs`, and the replaced oneshot sender is dropped.

So of all the calls with one message id the LAST one waits for ever, be it the main task, which then
accepts no further connection, or an event loop, which then takes no further message from its
connection.  `Waits` says where the oneshot sender of a call is: in the queue, with no other Send of the
id behind it, or in the map of the actor, with no Send of the id in the queue.
-/
import FrostFederation.Node.Safety

namespace FrostFederation.Node

open FrostFederation.Lib
open FrostFederation.Protocol
open FrostFederation.EchoBroadcast (ReliableSenderMap EchoBroadcastActor EchoBroadcastMessage EchoTask)

variable {E : Type} [DecidableEq E] {calculateHash : String → MessageId}

/-! ## Steps in which nothing fails -/

/-- Broadcasts are well-formed, and every reliable send of the actor succeeds. -/
structure Smooth (node : Node E) (ev : Event E) : Prop where
  wellFed : WellFed node ev
  reached : ∀ reach, ev.input = .actor reach → reach = fun _ => true

/-- The oneshot sender that is stored under a message id. -/
def waiter (node : Node E) (m : MessageId) : Option Oneshot :=
  node.actor.bind fun a => a.messageClientTxs.lookup m

omit [DecidableEq E] in
/-- What the actor does with a Send when nothing fails: it stores the oneshot sender, and drops the one
it replaces. -/
theorem handleCommand_smooth {node : Node E} (hsound : Sound node) {command : EchoBroadcastMessage E}
    {rest : List (EchoBroadcastMessage E)} (hqueue : node.queue = command :: rest) :
    ∃ data members tx m, command = .send data members tx ∧ data.getMessageId = some m ∧
      (node.handleCommand (fun _ => true) command rest).1.queue = rest ∧
      (∀ m', (node.handleCommand (fun _ => true) command rest).1.waiter m' =
        if m' = m then some tx else node.waiter m') ∧
      (node.handleCommand (fun _ => true) command rest).1.results =
        match node.waiter m with
        | some tx' => Function.update node.results tx' (some (.error "channel closed"))
        | none => node.results := by
  have hcommand := hsound.carries.queue command (by rw [hqueue]; exact List.mem_cons_self)
  obtain ⟨a, ha⟩ := Option.isSome_iff_exists.mp hsound.alive
  obtain ⟨a', event, result, hp, hcmd, -⟩ := process_of_sendsOnly hcommand a fun _ => true
  obtain ⟨data, members, tx, rfl, -⟩ := hcommand
  have hs := step_of_process (some a) (fun _ => true) data members tx
  rw [hp] at hs
  obtain ⟨a₁, ha₁, hh⟩ := EchoTask.handled_cases hs rfl
  obtain rfl : a = a₁ := Option.some.inj ha₁
  have hreach : event.reach = fun _ => true := by
    obtain ⟨_, _, _, _, hreach, _⟩ := EchoTask.handled_of_step hs rfl
    exact hreach
  obtain ⟨m, sent, hid, hsent, ⟨-, hfailed, -⟩ | ⟨-, -, heff, htxs⟩⟩ := hh.of_send hcmd
  · exact absurd (fun x _ => by rw [hreach]) hfailed
  · refine ⟨data, members, tx, m, rfl, hid, ?_, ?_, ?_⟩
    · simp only [handleCommand, ha, hp]
    · intro m'
      simp only [waiter, handleCommand, ha, hp, Option.bind_some, htxs]
      exact HashMap.lookup_insert_eq_ite _ _ _ _
    · have hresults : (node.handleCommand (fun _ => true) (.send data members tx) rest).1.results =
          event.effects.foldl settle node.results := by
        simp only [handleCommand, ha, hp]
      rw [hresults, heff, List.foldl_append, foldl_settle_onlySends hsent]
      simp only [waiter, ha, Option.bind_some]
      cases a.messageClientTxs.lookup m <;> rfl

/-! ## Oneshots are numbered -/

/-- The oneshots on their way to the actor and in its map have been opened, those that have not been
opened have no result, and the main task has not used the jobs of its later calls. -/
structure Numbered (node : Node E) : Prop where
  queue : ∀ command ∈ node.queue, ∀ tx ∈ EchoTask.respondTo command, tx < node.opened
  waiter : ∀ m tx, node.waiter m = some tx → tx < node.opened
  results : ∀ tx, node.opened ≤ tx → node.results tx = none
  services : ∀ i, node.services ≤ i → node.jobs (.service i) = .absent

omit [DecidableEq E] in
theorem numbered_new (address : String) : Numbered (new.withBindAddress address : Node E) where
  queue := by simp [new, withBindAddress]
  waiter := by simp [new, withBindAddress, waiter, EchoBroadcastActor.start]
  results := fun _ _ => rfl
  services := fun _ _ => rfl

omit [DecidableEq E] in
/-- Steps that leave the actor, its queue and the oneshots alone. -/
theorem numbered_of_eq {node node' : Node E} (h : Numbered node) (hqueue : node'.queue = node.queue)
    (hactor : node'.actor = node.actor) (hopened : node'.opened = node.opened)
    (hresults : node'.results = node.results)
    (hservices : ∀ i, node'.services ≤ i → node'.jobs (.service i) = .absent) : Numbered node' where
  queue := by
    rw [hqueue, hopened]
    exact h.queue
  waiter := by
    unfold waiter
    rw [hactor, hopened]
    exact h.waiter
  results := by
    rw [hresults, hopened]
    exact h.results
  services := hservices

theorem numbered_step {node node' : Node E} {input : Input E} {ev : Event E} (hsound : Sound node)
    (h : Numbered node) (hs : (machine calculateHash E).step node input = some (node', ev))
    (hsmooth : Smooth node ev) : Numbered node' := by
  -- a job that is in a call is not one of the later calls
  have hlater : ∀ {j : Job E} {send : SendPhase E} {phase : Phase E}, (node.jobs j).send? = some send →
      ∀ i, node.services ≤ i → Function.update node.jobs j phase (.service i) = .absent := by
    intro j send phase hj i hi
    rw [Function.update_of_ne]
    · exact h.services i hi
    · rintro rfl
      simp [h.services i hi, Phase.send?] at hj
  have hloop : ∀ (e : E) (phase : Phase E) i, node.services ≤ i →
      Function.update node.jobs (.eventLoop e) phase (.service i) = .absent := fun e phase i hi => by
    simpa using h.services i hi
  cases stepped_of_step hs with
  | @connected e _ _ => exact numbered_of_eq h rfl rfl rfl rfl (hloop e .receiving)
  | registered _ => exact numbered_of_eq h rfl rfl rfl rfl h.services
  | arrived => exact numbered_of_eq h rfl rfl rfl rfl h.services
  | closed => exact numbered_of_eq h rfl rfl rfl rfl h.services
  | answered _ _ => exact numbered_of_eq h rfl rfl rfl rfl h.services
  | taken _ _ => exact numbered_of_eq h rfl rfl rfl rfl fun i hi => by simpa using h.services i hi
  | @finished e _ _ => exact numbered_of_eq h rfl rfl rfl rfl (hloop e .ended)
  | requested _ => exact h
  | originated =>
      refine numbered_of_eq h rfl rfl rfl rfl fun i hi => ?_
      have hne : Job.service i ≠ (.service node.services : Job E) := by
        rintro ⟨⟩
        exact absurd hi (Nat.not_succ_le_self _)
      simpa [hne] using h.services i (Nat.le_of_succ_le hi)
  | @posted j nanos data members hphase =>
      refine ⟨?_, fun m tx hw => Nat.lt_succ_of_lt (h.waiter m tx hw),
        fun tx htx => h.results tx (Nat.le_of_succ_le htx), hlater hphase⟩
      intro command hmem tx htx
      rcases List.mem_append.mp hmem with hold | hnew
      · exact Nat.lt_succ_of_lt (h.queue command hold tx htx)
      · rw [List.mem_singleton.mp hnew] at htx
        rw [List.mem_singleton.mp htx]
        exact Nat.lt_succ_self _
  | refused hphase => exact numbered_of_eq h rfl rfl rfl rfl (hlater hphase)
  | woken hphase _ => exact numbered_of_eq h rfl rfl rfl rfl (hlater hphase)
  | @timedOut e _ _ => exact numbered_of_eq h rfl rfl rfl rfl (hloop e .receiving)
  | @handled reach command rest hlive hqueue =>
      obtain rfl := hsmooth.reached reach rfl
      have huntouched := (handleCommand_cases node (fun _ => true) command rest).1
      obtain ⟨data, members, tx, m, rfl, -, hrest, hwaiter, hresults⟩ := handleCommand_smooth hsound hqueue
      have hhead : .send data members tx ∈ node.queue := by
        rw [hqueue]
        exact List.mem_cons_self
      have htx : tx < node.opened := h.queue _ hhead tx (by simp [EchoTask.respondTo])
      refine ⟨?_, ?_, ?_, ?_⟩
      · rw [hrest, huntouched.opened]
        exact fun command hmem => h.queue command (by rw [hqueue]; exact List.mem_cons_of_mem _ hmem)
      · intro m' tx' hw
        rw [hwaiter] at hw
        rw [huntouched.opened]
        split at hw
        · rw [← Option.some.inj hw]
          exact htx
        · exact h.waiter m' tx' hw
      · intro tx' htx'
        rw [huntouched.opened] at htx'
        rw [hresults]
        split
        · next old hold =>
            have hlt := h.waiter m old hold
            rw [Function.update_of_ne (Nat.ne_of_gt (Nat.lt_of_lt_of_le hlt htx'))]
            exact h.results tx' htx'
        · exact h.results tx' htx'
      · rw [huntouched.jobs, huntouched.services]
        exact h.services

/-! ## The last call with an id -/

/-- A command that neither has the oneshot `tx` nor the message id `m`. -/
def Foreign (m : MessageId) (tx : Oneshot) (command : EchoBroadcastMessage E) : Prop :=
  tx ∉ EchoTask.respondTo command ∧
    ∀ data members tx', command = .send data members tx' → data.getMessageId ≠ some m

/-- The oneshot sender of a call waits, and nothing is on the way that would take its place. -/
inductive Waits (m : MessageId) (tx : Oneshot) (node : Node E) : Prop
  | queued {before after : List (EchoBroadcastMessage E)} {data : Message}
      {members : ReliableSenderMap E} (hqueue : node.queue = before ++ .send data members tx :: after)
      (hid : data.getMessageId = some m) (hbefore : ∀ command ∈ before, tx ∉ EchoTask.respondTo command)
      (hafter : ∀ command ∈ after, Foreign m tx command) (hwaiter : ∀ m', node.waiter m' ≠ some tx) :
      Waits m tx node
  | stored (hqueue : ∀ command ∈ node.queue, Foreign m tx command)
      (hwaiter : ∀ m', node.waiter m' = some tx ↔ m' = m) : Waits m tx node

omit [DecidableEq E] in
/-- Steps that leave the actor and its queue alone. -/
theorem waits_of_eq {m : MessageId} {tx : Oneshot} {node node' : Node E} (h : Waits m tx node)
    (hqueue : node'.queue = node.queue) (hactor : node'.actor = node.actor) : Waits m tx node' := by
  have hsame : node'.waiter = node.waiter := by
    funext m'
    rw [waiter, waiter, hactor]
  cases h with
  | queued hq hid hbefore hafter hwaiter =>
      exact .queued (hqueue.trans hq) hid hbefore hafter (by rwa [hsame])
  | stored hq hwaiter => exact .stored (by rwa [hqueue]) (by rwa [hsame])

omit [DecidableEq E] in
/-- A Send with another id is posted. -/
theorem waits_posted {m : MessageId} {tx : Oneshot} {node node' : Node E}
    {command : EchoBroadcastMessage E} (h : Waits m tx node) (hforeign : Foreign m tx command)
    (hqueue : node'.queue = node.queue ++ [command]) (hactor : node'.actor = node.actor) :
    Waits m tx node' := by
  have hsame : node'.waiter = node.waiter := by
    funext m'
    rw [waiter, waiter, hactor]
  have hmore : ∀ {commands : List (EchoBroadcastMessage E)}, (∀ c ∈ commands, Foreign m tx c) →
      ∀ c ∈ commands ++ [command], Foreign m tx c := by
    intro commands hall c hc
    rcases List.mem_append.mp hc with hold | hnew
    · exact hall c hold
    · rwa [List.mem_singleton.mp hnew]
  cases h with
  | @queued before after data members hq hid hbefore hafter hwaiter =>
      have hq' : node'.queue = before ++ .send data members tx :: (after ++ [command]) := by
        rw [hqueue, hq, List.append_assoc, List.cons_append]
      exact .queued hq' hid hbefore (hmore hafter) (by rwa [hsame])
  | stored hq hwaiter => exact .stored (by rw [hqueue]; exact hmore hq) (by rwa [hsame])

omit [DecidableEq E] in
/-- The actor handles a command, and the call still waits. -/
theorem waits_handled {m : MessageId} {tx : Oneshot} {node : Node E} (hsound : Sound node)
    (h : Waits m tx node) (hresult : node.results tx = none) {command : EchoBroadcastMessage E}
    {rest : List (EchoBroadcastMessage E)} (hqueue : node.queue = command :: rest) :
    Waits m tx (node.handleCommand (fun _ => true) command rest).1 ∧
      (node.handleCommand (fun _ => true) command rest).1.results tx = none := by
  obtain ⟨data, members, tx₁, m₁, rfl, hid₁, hrest, hwaiter', hresults⟩ :=
    handleCommand_smooth hsound hqueue
  -- only the sender that is replaced gets a result, and it is another one
  have hkept : node.waiter m₁ ≠ some tx →
      (node.handleCommand (fun _ => true) (.send data members tx₁) rest).1.results tx = none := by
    intro hne
    rw [hresults]
    split
    · next old hold =>
        rw [Function.update_of_ne]
        · exact hresult
        · rintro rfl
          exact hne hold
    · exact hresult
  cases h with
  | @queued before after data' members' hq hid hbefore hafter hwaiter =>
      refine ⟨?_, hkept (hwaiter m₁)⟩
      rw [hqueue] at hq
      cases before with
      | nil =>
          -- it is this call's turn: its sender is stored
          obtain ⟨hcommand, rfl⟩ := List.cons.inj hq
          obtain ⟨rfl, rfl, rfl⟩ := EchoBroadcastMessage.send.inj hcommand
          obtain rfl : m = m₁ := Option.some.inj (hid.symm.trans hid₁)
          refine .stored (by rwa [hrest]) fun m' => ?_
          rw [hwaiter']
          split
          · next heq => simp [heq]
          · next hne => simp [hne, hwaiter m']
      | cons first before =>
          obtain ⟨rfl, hq'⟩ := List.cons.inj hq
          have htx₁ : tx₁ ≠ tx := by
            rintro rfl
            exact hbefore _ List.mem_cons_self (by simp [EchoTask.respondTo])
          refine .queued (hrest.trans hq') hid
            (fun c hc => hbefore c (List.mem_cons_of_mem _ hc)) hafter fun m' => ?_
          rw [hwaiter']
          split
          · simpa using htx₁
          · exact hwaiter m'
  | stored hq hwaiter =>
      have hforeign := hq (.send data members tx₁) (by rw [hqueue]; exact List.mem_cons_self)
      have hm₁ : m₁ ≠ m := by
        rintro rfl
        exact hforeign.2 data members tx₁ rfl hid₁
      have htx₁ : tx₁ ≠ tx := by
        rintro rfl
        exact hforeign.1 (by simp [EchoTask.respondTo])
      refine ⟨.stored ?_ fun m' => ?_, hkept ?_⟩
      · rw [hrest]
        exact fun c hc => hq c (by rw [hqueue]; exact List.mem_cons_of_mem _ hc)
      · rw [hwaiter']
        split
        · next heq => simp [heq, hm₁, htx₁]
        · exact hwaiter m'
      · rw [Ne, hwaiter]
        exact hm₁

/-- **As long as no Send with the same id is posted, a call goes on waiting.** -/
theorem waits_step {m : MessageId} {tx : Oneshot} {node node' : Node E} {input : Input E}
    {ev : Event E} (hsound : Sound node) (hopen : tx < node.opened) (h : Waits m tx node)
    (hresult : node.results tx = none)
    (hs : (machine calculateHash E).step node input = some (node', ev)) (hsmooth : Smooth node ev)
    (hother : ev.handsSend m = false) : Waits m tx node' ∧ node'.results tx = none := by
  cases stepped_of_step hs with
  | posted hphase =>
      refine ⟨waits_posted h ⟨?_, ?_⟩ rfl rfl, hresult⟩
      · simpa [EchoTask.respondTo] using Nat.ne_of_lt hopen
      · rintro data members tx' ⟨⟩
        simpa [Event.handsSend] using hother
  | handled hlive hqueue =>
      obtain rfl := hsmooth.reached _ rfl
      exact waits_handled hsound h hresult hqueue
  | _ => exact ⟨waits_of_eq h rfl rfl, hresult⟩

/-- A call that waits does so until its oneshot has a result, unless its timeout passes. -/
theorem waiting_step {j : Job E} {tx : Oneshot} {node node' : Node E} {input : Input E} {ev : Event E}
    (hnumbered : Numbered node) (hwaiting : (node.jobs j).send? = some (.waiting tx))
    (hresult : node.results tx = none)
    (hs : (machine calculateHash E).step node input = some (node', ev))
    (hpatient : ∀ e, ev.input = .timeout e → j ≠ .eventLoop e) :
    (node'.jobs j).send? = some (.waiting tx) := by
  have hkept : ∀ {j' : Job E} {phase : Phase E}, j ≠ j' →
      (Function.update node.jobs j' phase j).send? = some (.waiting tx) := by
    intro j' phase hne
    rwa [Function.update_of_ne hne]
  cases stepped_of_step hs with
  | connected habsent =>
      refine hkept ?_
      rintro rfl
      simp [habsent, Phase.send?] at hwaiting
  | taken hphase _ =>
      refine hkept ?_
      rintro rfl
      simp [hphase, Phase.send?] at hwaiting
  | finished hphase =>
      refine hkept ?_
      rintro rfl
      simp [hphase, Phase.send?] at hwaiting
  | originated =>
      refine hkept ?_
      rintro rfl
      simp [hnumbered.services _ (Nat.le_refl _), Phase.send?] at hwaiting
  | posted hphase =>
      refine hkept ?_
      rintro rfl
      simp [hphase] at hwaiting
  | refused hphase =>
      refine hkept ?_
      rintro rfl
      simp [hphase] at hwaiting
  | woken hphase hsome =>
      refine hkept ?_
      rintro rfl
      obtain rfl : _ = tx := by simpa [hphase] using hwaiting
      simp [hresult] at hsome
  | @timedOut e _ hphase => exact hkept (hpatient e rfl)
  | handled hlive hqueue =>
      rw [(handleCommand_cases node _ _ _).1.jobs]
      exact hwaiting
  | _ => exact hwaiting

omit [DecidableEq E] in
theorem lt_of_waits {m : MessageId} {tx : Oneshot} {node : Node E} (hnumbered : Numbered node)
    (h : Waits m tx node) : tx < node.opened := by
  cases h with
  | @queued before after data members hqueue =>
      refine hnumbered.queue (.send data members tx) ?_ tx (by simp [EchoTask.respondTo])
      rw [hqueue]
      exact List.mem_append_right _ List.mem_cons_self
  | stored _ hwaiter => exact hnumbered.waiter m tx ((hwaiter m).mpr rfl)

/-- Only the task itself moves a call of the main task. -/
theorem service_kept {node node' : Node E} {input : Input E} {ev : Event E} {i : Nat}
    (hs : (machine calculateHash E).step node input = some (node', ev))
    (horiginate : ∀ message nanos, input ≠ .originate message nanos)
    (hpost : ∀ nanos, input ≠ .post (.service i) nanos)
    (hwake : ∀ nanos, input ≠ .wake (.service i) nanos) :
    node'.jobs (.service i) = node.jobs (.service i) := by
  have hloop : ∀ (e : E) (phase : Phase E),
      Function.update node.jobs (.eventLoop e) phase (.service i) = node.jobs (.service i) :=
    fun e phase => Function.update_of_ne (by simp) _ _
  cases stepped_of_step hs with
  | originated => exact absurd rfl (horiginate _ _)
  | @posted j nanos _ _ _ =>
      refine Function.update_of_ne ?_ _ _
      rintro rfl
      exact hpost nanos rfl
  | @refused j nanos _ _ _ =>
      refine Function.update_of_ne ?_ _ _
      rintro rfl
      exact hpost nanos rfl
  | @woken j nanos _ _ _ _ =>
      refine Function.update_of_ne ?_ _ _
      rintro rfl
      exact hwake nanos rfl
  | handled => rw [(handleCommand_cases node _ _ _).1.jobs]
  | @connected e _ _ => exact hloop e .receiving
  | @taken e m _ _ _ _ => exact hloop e (.echoing m (.posting (.ofBroadcast m) node.members))
  | @finished e _ _ => exact hloop e .ended
  | @timedOut e _ _ => exact hloop e .receiving
  | _ => rfl

/-- As long as the actor is there, a post that happens hands over its Send. -/
theorem handed_of_post {node node' : Node E} {ev : Event E} {j : Job E} {nanos : Nat}
    {data : Message} {members : ReliableSenderMap E} (halive : node.actor.isSome = true)
    (hphase : (node.jobs j).send? = some (.posting data members))
    (hs : (machine calculateHash E).step node (.post j nanos) = some (node', ev)) :
    ev.input = .post j nanos ∧ ev.handed = some (.send data members node.opened) := by
  by_cases hlen : node.queue.length < queueCapacity
  · rw [step_post calculateHash hphase halive hlen] at hs
    obtain ⟨-, rfl⟩ := Prod.mk.inj (Option.some.inj hs)
    exact ⟨rfl, rfl⟩
  · obtain ⟨a, ha⟩ := Option.isSome_iff_exists.mp halive
    simp [machine, step, hphase, ha, hlen] at hs

/-- The call that is posted waits. -/
theorem waits_of_posted {m : MessageId} {j : Job E} {nanos : Nat} {data : Message}
    {members : ReliableSenderMap E} {tx : Oneshot} {node node' : Node E} {input : Input E}
    {ev : Event E} (hnumbered : Numbered node)
    (hs : (machine calculateHash E).step node input = some (node', ev))
    (hinput : ev.input = .post j nanos) (hhanded : ev.handed = some (.send data members tx))
    (hid : data.getMessageId = some m) :
    Waits m tx node' ∧ node'.results tx = none ∧ (node'.jobs j).send? = some (.waiting tx) := by
  cases stepped_of_step hs with
  | @posted j' nanos' data' members' hphase =>
      cases hinput
      cases hhanded
      refine ⟨.queued rfl hid ?_ (by simp) ?_, hnumbered.results _ (Nat.le_refl _), ?_⟩
      · exact fun command hmem htx => Nat.lt_irrefl _ (hnumbered.queue command hmem _ htx)
      · exact fun m' hw => Nat.lt_irrefl _ (hnumbered.waiter m' _ hw)
      · cases hp : node.jobs j <;> simp_all [Phase.send?, Phase.setSend]
  | _ => cases hhanded

theorem sound_numbered_of_run {address : String} {tr : List (Event E)} {node : Node E}
    (hrun : (machine calculateHash E).RunWith Smooth (new.withBindAddress address) tr node) :
    Sound node ∧ Numbered node := by
  refine hrun.invariant (I := fun _ node => Sound node ∧ Numbered node)
    ⟨sound_new address, numbered_new address⟩ ?_
  rintro tr node i node' ev - ⟨hsound, hnumbered⟩ hs hsmooth
  exact ⟨(sound_step hsound (change_of_step hs) hsmooth.wellFed).1,
    numbered_step hsound hnumbered hs hsmooth⟩

/-- **The last call with a message id never comes back.**  As long as no reliable send fails, the
broadcasts that arrive carry ids and nobody broadcasts to an empty membership: unless another task hands
over a Send with the same id, the task that made the call goes on waiting for it. -/
theorem waiting_of_lastSend {address : String} {pre post : List (Event E)} {ev : Event E}
    {node : Node E} {j : Job E} {nanos : Nat} {data : Message} {members : ReliableSenderMap E}
    {tx : Oneshot} {m : MessageId}
    (hrun : (machine calculateHash E).RunWith Smooth (new.withBindAddress address)
      (pre ++ ev :: post) node)
    (hinput : ev.input = .post j nanos) (hhanded : ev.handed = some (.send data members tx))
    (hid : data.getMessageId = some m) (hlast : ∀ ev' ∈ post, ev'.handsSend m = false)
    (hpatient : ∀ ev' ∈ post, ∀ e, ev'.input = .timeout e → j ≠ .eventLoop e) :
    (node.jobs j).send? = some (.waiting tx) ∧ node.results tx = none := by
  obtain ⟨node₁, i, node₂, hpre, hs, hsmooth, hpost⟩ := hrun.around
  obtain ⟨hsound₁, hnumbered₁⟩ := sound_numbered_of_run hpre
  have hsound₂ := (sound_step hsound₁ (change_of_step hs) hsmooth.wellFed).1
  have hnumbered₂ := numbered_step hsound₁ hnumbered₁ hs hsmooth
  obtain ⟨hwaits₂, hresult₂, hwaiting₂⟩ := waits_of_posted hnumbered₁ hs hinput hhanded hid
  have hinv : (∀ ev' ∈ post, ev'.handsSend m = false) →
      (∀ ev' ∈ post, ∀ e, ev'.input = .timeout e → j ≠ .eventLoop e) →
      Sound node ∧ Numbered node ∧ Waits m tx node ∧ node.results tx = none ∧
        (node.jobs j).send? = some (.waiting tx) := by
    refine hpost.invariant (I := fun post node => (∀ ev' ∈ post, ev'.handsSend m = false) →
      (∀ ev' ∈ post, ∀ e, ev'.input = .timeout e → j ≠ .eventLoop e) →
      Sound node ∧ Numbered node ∧ Waits m tx node ∧ node.results tx = none ∧
        (node.jobs j).send? = some (.waiting tx))
      (fun _ _ => ⟨hsound₂, hnumbered₂, hwaits₂, hresult₂, hwaiting₂⟩) ?_
    intro tr node i node' ev' _ ih hs hsmooth hlast hpatient
    have hmem : ev' ∈ tr ++ [ev'] := List.mem_append_right _ List.mem_cons_self
    obtain ⟨hsound, hnumbered, hwaits, hresult, hwaiting⟩ :=
      ih (fun e he => hlast e (List.mem_append_left _ he)) fun e he => hpatient e (List.mem_append_left _ he)
    obtain ⟨hwaits', hresult'⟩ :=
      waits_step hsound (lt_of_waits hnumbered hwaits) hwaits hresult hs hsmooth (hlast ev' hmem)
    exact ⟨(sound_step hsound (change_of_step hs) hsmooth.wellFed).1,
      numbered_step hsound hnumbered hs hsmooth, hwaits', hresult',
      waiting_step hnumbered hwaiting hresult hs (hpatient ev' hmem)⟩
  obtain ⟨-, -, -, hresult, hwaiting⟩ := hinv hlast hpatient
  exact ⟨hwaiting, hresult⟩

/-- `WellFed`, for runs on fixed inputs. -/
def fed (node : Node E) (ev : Event E) : Bool :=
  match ev.input with
  | .arrive _ (.broadcastMessage m) => (Message.broadcastMessage m).getMessageId.isSome
  | .originate _ _ => !node.members.keys.isEmpty
  | .receive _ _ => !node.members.keys.isEmpty
  | _ => true

omit [DecidableEq E] in
theorem wellFed_of_fed {node : Node E} {ev : Event E} (h : fed node ev = true) : WellFed node ev := by
  refine ⟨fun e m hinput => ?_, ?_⟩
  · simp only [fed, hinput] at h
    exact Option.isSome_iff_ne_none.mp h
  · rintro (⟨message, nanos, hinput⟩ | ⟨e, nanos, m, rest, hinput, -⟩)
    · simpa [fed, hinput, Populated] using h
    · simpa [fed, hinput, Populated] using h

/-- A run that was checked with `fed`, and in which every reliable send succeeds. -/
theorem smooth_of_execWith {address : String} {inputs : List (Input E)} {tr : List (Event E)}
    {node : Node E}
    (hexec : (machine calculateHash E).execWith fed (new.withBindAddress address) inputs = some (node, tr))
    (hreach : ∀ ev ∈ tr, ∀ reach, ev.input = .actor reach → reach = fun _ => true) :
    (machine calculateHash E).RunWith Smooth (new.withBindAddress address) tr node :=
  ((Machine.runWith_of_execWith hexec).strengthen hreach).mono fun _ _ h => ⟨wellFed_of_fed h.1, h.2⟩

/-- A peer's package is forwarded, and then the peer sends a ping. -/
def unheardPing : List (Input Unit) :=
  [.connect () "127.0.0.1:50001", .register (), .arrive () (.package "localhost:6681" "hello" 1),
    .receive () 0, .post (.eventLoop ()) 0, .actor fun _ => true,
    .arrive () (.unicastMessage (.ping ⟨"localhost:6681", "ping"⟩))]

/-- The ping stays in the client channel. -/
theorem waiting_of_lastSend_unheardPing :
    ∃ tr node, (machine hashLength Unit).execWith fed (new.withBindAddress "localhost:6680") unheardPing =
        some (node, tr) ∧
      node.inbox () = [.unicastMessage (.ping ⟨"localhost:6681", "ping"⟩)] ∧
      (node.jobs (.eventLoop ())).send? = some (.waiting 0) := by
  obtain ⟨node, tr, hexec, hinbox, hinputs, pre, ev, post, rfl, hinput, hhanded, hpost, hlast⟩ :
      ∃ node tr,
        (machine hashLength Unit).execWith fed (new.withBindAddress "localhost:6680") unheardPing =
          some (node, tr) ∧
        node.inbox () = [.unicastMessage (.ping ⟨"localhost:6681", "ping"⟩)] ∧
        tr.map Event.input = unheardPing ∧ ∃ pre ev post, tr = pre ++ ev :: post ∧
        ev.input = .post (.eventLoop ()) 0 ∧
        ev.handed = some (.send (.package "localhost:6681" "hello" 1) oneConnection.members 0) ∧
        post.map Event.input = unheardPing.drop 5 ∧ post.all (fun ev => !ev.handsSend ⟨1⟩) = true :=
    ⟨_, _, rfl, rfl, rfl, [_, _, _, _], _, [_, _], rfl, rfl, rfl, rfl, rfl⟩
  have hrun := smooth_of_execWith hexec ?_
  · refine ⟨_, node, hexec, hinbox, (waiting_of_lastSend hrun hinput hhanded rfl ?_ ?_).1⟩
    · simpa using hlast
    · intro ev' hev' e htimeout
      have hmem : ev'.input ∈ unheardPing.drop 5 := hpost ▸ List.mem_map_of_mem hev'
      simp [htimeout, unheardPing] at hmem
  · intro ev' hev' reach hreach
    have hmem : ev'.input ∈ unheardPing := hinputs ▸ List.mem_map_of_mem hev'
    simpa [hreach, unheardPing] using hmem

end FrostFederation.Node
