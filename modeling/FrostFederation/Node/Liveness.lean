/-
# FrostFederation.Node.Liveness — what a peer can do to the broadcasts of a node.

The condition is that of `Node.Safety`: broadcasts arrive with a message id, and a snapshot of the
membership is not empty.  Along every run of the node that awaits its reliable sends, no command that
is handed to the actor panics, and the actor stays alive (`Healthy`, carried over from the coarser node).

That the actor is alive does not yet mean that it gets to the node's own broadcasts: `send_message` has
no timeout, and a peer that takes a package and never acknowledges it holds the actor up for ever.  So
the rest is about infinite executions in which the tasks are scheduled AND every reliable send that the
actor awaits returns (`Fair`).  In these each command is a bounded number of the actor's own steps away
(`Ahead`), and every package that the node originates is handed over and processed.
-/
import FrostFederation.Node.Awaiting
import FrostFederation.Node.Safety
import Mathlib.Algebra.Ring.Nat

namespace FrostFederation.Node.Awaiting

open FrostFederation.Lib
open FrostFederation.Protocol
open FrostFederation.EchoBroadcast
  (ReliableSenderMap EchoBroadcastActor EchoBroadcastMessage EchoTask Loop LoopInput)

variable {E : Type} [DecidableEq E] {calculateHash : String → MessageId} {r r' : Awaiting E}
  {c : Node E} {sent : List (EchoBroadcast.Effect E)} {e : Event E}

/-! ## The condition -/

/-- The broadcasts that arrive carry a message id, and a snapshot of the membership is not empty. -/
def WellFed (r : Awaiting E) (e : Event E) : Prop :=
  ∀ input, e.input = .task input → Node.WellFed r.node (.quiet input)

/-- The coarser node is fed in the same way. -/
theorem wellFed_of_follows {c' : Node E} {tr' : List (Node.Event E)} (h : Behind r sent c)
    (hfollows : Follows calculateHash c e tr' c') (hfed : WellFed r e) :
    ∀ ev ∈ tr', Node.WellFed c ev := by
  have hinbox : c.inbox = r.node.inbox := by rw [h.node]
  have hmembers : c.members = r.node.members := by rw [h.node]
  intro ev hev
  cases hfollows with
  | suspended _ _ _ => cases hev
  | @task input ev' _ hs hinput hprocessed he =>
      obtain rfl := List.mem_singleton.mp hev
      have hquiet := hfed input (by rw [he])
      refine ⟨fun x m harrive => hquiet.identified x m (hinput.symm.trans harrive), fun hsnapshot => ?_⟩
      rw [hmembers]
      refine hquiet.populated ?_
      rwa [Snapshots, hinput, hinbox] at hsnapshot
  | handled _ _ _ _ hev' _ =>
      obtain rfl := List.mem_singleton.mp hev
      subst hev'
      exact ⟨by simp, by simp [Snapshots]⟩

/-! ## No command panics -/

/-- The coarser node is sound. -/
def Healthy (r : Awaiting E) : Prop := ∃ sent c, Behind r sent c ∧ Sound c

omit [DecidableEq E] in
theorem healthy_new (address : String) : Healthy (new address : Awaiting E) :=
  ⟨[], _, behind_idle _, sound_new address⟩

omit [DecidableEq E] in
theorem Healthy.alive (h : Healthy r) : r.node.actor.isSome = true := by
  obtain ⟨sent, c, hbehind, hsound⟩ := h
  rw [← hbehind.alive]
  exact hsound.alive

/-- **A step keeps the node healthy**: the command that is handed over is identified and goes to
somebody, and the command that the actor is through with has not panicked. -/
theorem healthy_step {i : Input E} (h : Healthy r)
    (hs : (machine calculateHash E).step r i = some (r', e)) (hfed : WellFed r e) :
    Healthy r' ∧ (∀ command, e.handed = some command → SendsOnly Identified Populated command) ∧
      ∀ command ok, e.finished = some (command, ok) → ok = true := by
  obtain ⟨sent, c, hbehind, hsound⟩ := h
  obtain ⟨tr', c', sent', hfollows, hbehind', -⟩ := follows_of_step hbehind hs
  have hfed' := wellFed_of_follows hbehind hfollows hfed
  cases hfollows with
  | suspended _ hhanded hfinished =>
      exact ⟨⟨sent', c, hbehind', hsound⟩, by simp [hhanded], by simp [hfinished]⟩
  | @task input ev _ hs' hinput hprocessed he =>
      obtain ⟨hsound', hemits, -⟩ :=
        sound_step hsound (change_of_step hs') (hfed' ev (List.mem_singleton_self ev))
      subst he
      exact ⟨⟨sent', c', hbehind', hsound'⟩, hemits.handed, by simp⟩
  | @handled reach event ev _ hs' _ hhanded _ hev hfinished =>
      obtain ⟨hsound', -, hprocessed⟩ :=
        sound_step hsound (change_of_step hs') (hfed' ev (List.mem_singleton_self ev))
      obtain ⟨result, hresult⟩ := hprocessed event (by rw [hev])
      refine ⟨⟨sent', c', hbehind', hsound'⟩, by simp [hhanded], fun command ok hdone => ?_⟩
      obtain ⟨rfl, rfl⟩ := Prod.mk.inj (Option.some.inj (hfinished.symm.trans hdone))
      simp [returned, hresult]

/-! ## How long the actor takes -/

/-- How many steps it takes the actor at most to be through with the first of its commands, when it is in
this phase. -/
def workload (phase : EchoBroadcast.LoopPhase E) : List (EchoBroadcastMessage E) → Nat
  | [] => 0
  | command :: rest =>
      Loop.remaining phase command + 1 + (rest.map fun later => Loop.remaining .ended later + 1).sum

omit [DecidableEq E] in
theorem workload_receiving (actor : EchoBroadcastActor E) (commands : List (EchoBroadcastMessage E)) :
    workload (.receiving actor) commands =
      (commands.map fun command => Loop.remaining .ended command + 1).sum := by
  cases commands with
  | nil => rfl
  | cons command rest => cases command <;> simp [workload, Loop.remaining]

/-- The actor of a healthy node is through with the command after at most `n` of its steps. -/
def Ahead (command : EchoBroadcastMessage E) (n : Nat) (r : Awaiting E) : Prop :=
  Healthy r ∧ ∃ before behind, r.loop.unfinished = before ++ command :: behind ∧
    n = workload r.phase (before ++ [command])

/-- A step of the actor itself: it takes a command, or the reliable send that it awaits returns. -/
def Event.Turn (e : Event E) : Prop := e.input = .take ∨ ∃ ok, e.input = .answer ok

/-- **A step does not take the actor farther from a command, and each of its own brings it nearer.** -/
theorem ahead_step {command : EchoBroadcastMessage E} {n : Nat} {i : Input E} (h : Ahead command n r)
    (hs : (machine calculateHash E).step r i = some (r', e)) (hfed : WellFed r e) :
    e.finished = some (command, true) ∨ ∃ n', Ahead command n' r' ∧ n' ≤ n ∧ (e.Turn → n' < n) := by
  obtain ⟨hhealthy, before, behind, hunfinished, rfl⟩ := h
  obtain ⟨hhealthy', -, hreturned⟩ := healthy_step hhealthy hs hfed
  cases moved_of_step hs with
  | @task input node' ev _ hreach hnode =>
      obtain ⟨hactor, hqueue, -, -⟩ := actor_of_task hnode hreach
      obtain ⟨hphase, hlonger⟩ := unfinished_post hactor hqueue
      refine Or.inr ⟨_, ⟨hhealthy', before, behind ++ ev.handed.toList, ?_, rfl⟩, ?_, ?_⟩
      · rw [hlonger, hunfinished]
        simp
      · rw [hphase]
      · rintro (hturn | ⟨ok, hturn⟩) <;> cases hturn
  | @turn _ li l' le hturn hloop =>
      obtain ⟨sent, c, hbehind, -⟩ := hhealthy
      obtain ⟨hsame, -⟩ := loop_turn hbehind hturn hloop
      obtain ⟨first, command₀, queue, -, hhead, hprogress⟩ :=
        Loop.progress_of_step hloop (turn_cases hturn).1 hbehind.lags
      have hsplit : before ++ command :: behind = command₀ :: queue := hunfinished.symm.trans hhead
      cases hprogress with
      | @asks actor call more hcommand hleft _ =>
          have hfewer : workload (.sending actor call) (before ++ [command]) <
              workload r.phase (before ++ [command]) := by
            cases before with
            | nil =>
                obtain ⟨rfl, -⟩ := List.cons.inj hsplit
                exact Nat.add_lt_add_right (Nat.succ_lt_succ hleft) _
            | cons first' rest =>
                obtain ⟨rfl, -⟩ := List.cons.inj hsplit
                exact Nat.add_lt_add_right (Nat.succ_lt_succ hleft) _
          refine Or.inr ⟨_, ⟨hhealthy', before, behind, ?_, rfl⟩, ?_⟩
          · rw [hsame, hsplit, hcommand]
            rfl
          · rw [phase_resume]
            exact ⟨Nat.le_of_lt hfewer, fun _ => hfewer⟩
      | @returns reach actor' event more _ _ _ =>
          cases before with
          | nil =>
              obtain ⟨rfl, -⟩ := List.cons.inj hsplit
              exact Or.inl (by simp [resume, hhead])
          | cons first' rest =>
              obtain ⟨rfl, rfl⟩ := List.cons.inj hsplit
              have hfewer : workload (.receiving actor') (rest ++ [command]) <
                  workload r.phase (first' :: rest ++ [command]) := by
                rw [workload_receiving]
                simp only [List.cons_append, workload]
                omega
              refine Or.inr ⟨_, ⟨hhealthy', rest, behind, by rw [hsame]; rfl, rfl⟩, ?_⟩
              rw [phase_resume]
              exact ⟨Nat.le_of_lt hfewer, fun _ => hfewer⟩
      | @panics reach event more _ _ _ =>
          have hpanicked := hreturned command₀ false (by simp [resume, hhead])
          cases hpanicked

/-- A call of the main task waits for room in the channel of a healthy node. -/
def Waits (k : Nat) (data : Message) (members : ReliableSenderMap E) (r : Awaiting E) : Prop :=
  Healthy r ∧ k < r.node.services ∧ r.node.jobs (.service k) = .serving (.posting data members)

/-- It waits until it gets in. -/
theorem waits_step {i : Input E} {k : Nat} {data : Message} {members : ReliableSenderMap E}
    (h : Waits k data members r) (hs : (machine calculateHash E).step r i = some (r', e))
    (hfed : WellFed r e) :
    (∃ tx, e.handed = some (.send data members tx)) ∨
      (Waits k data members r' ∧ ¬ ∃ nanos, e.input = .task (.post (.service k) nanos)) := by
  obtain ⟨hhealthy, hk, hjob⟩ := h
  have hhealthy' := (healthy_step hhealthy hs hfed).1
  cases moved_of_step hs with
  | @task input node' ev _ hreach hnode =>
      cases stepped_of_step hnode with
      | @originated message nanos =>
          have hne : (Job.service k : Job E) ≠ .service r.node.services := by
            simpa using Nat.ne_of_lt hk
          exact Or.inr ⟨⟨hhealthy', Nat.lt_succ_of_lt hk, by simp [hne, hjob]⟩, by simp⟩
      | @posted j nanos data' members' hphase =>
          by_cases hj : j = .service k
          · subst hj
            rw [hjob] at hphase
            obtain ⟨rfl, rfl⟩ : data = data' ∧ members = members' := by simpa [Phase.send?] using hphase
            exact Or.inl ⟨_, rfl⟩
          · exact Or.inr ⟨⟨hhealthy', hk, by simp [Ne.symm hj, hjob]⟩, by simp [hj]⟩
      | @refused j nanos data' members' hphase =>
          -- the actor is there
          obtain ⟨actor, hactor⟩ := Option.isSome_iff_exists.mp hhealthy.alive
          simp [Node.machine, Node.step, hphase, hactor, Node.Event.quiet] at hnode
      | @woken j nanos tx result hphase hresult =>
          have hj : (Job.service k : Job E) ≠ j := by
            rintro rfl
            simp [hjob, Phase.send?] at hphase
          exact Or.inr ⟨⟨hhealthy', hk, by simp [setJob, hj, hjob]⟩, by simp⟩
      | handled _ _ => exact absurd rfl (hreach _)
      | _ =>
          refine Or.inr ⟨⟨hhealthy', hk, ?_⟩, by simp⟩
          simp [startConnectionEventLoop, setJob, addMember, removeMember, hjob]
  | @turn _ li l' le hturn hloop =>
      have hnode : (r.resume i l' le).1.node.services = r.node.services ∧
          (r.resume i l' le).1.node.jobs = r.node.jobs := by
        unfold resume
        split <;> exact ⟨rfl, rfl⟩
      refine Or.inr ⟨⟨hhealthy', by rw [hnode.1]; exact hk, by rw [hnode.2]; exact hjob⟩, ?_⟩
      rintro ⟨nanos, hinput⟩
      rw [input_resume] at hinput
      exact (turn_cases hturn).2.1 _ hinput

/-! ## The node's own broadcasts -/

omit [DecidableEq E] in
theorem handed_resume (r : Awaiting E) (input : Input E) (l : Loop E) (le : EchoBroadcast.LoopEvent E) :
    (r.resume input l le).2.handed = none := by
  unfold resume
  split <;> rfl

/-- What a node needs to get its broadcasts processed: its tasks are scheduled, and the reliable sends of
its actor return. -/
structure Fair {r₀ : Awaiting E} (f : (machine calculateHash E).Forever WellFed r₀) : Prop where
  /-- The actor takes a command when there is one and it awaits nothing. -/
  takes : ∀ k, (f.state k).sending = none → (f.state k).node.queue ≠ [] →
    ∃ k', k ≤ k' ∧ (f.event k').input = .take
  /-- Every reliable send that the actor awaits returns. -/
  returns : ∀ k, (f.state k).sending ≠ none → ∃ k', k ≤ k' ∧ ∃ ok, (f.event k').input = .answer ok
  /-- A call of the main task that waits for room in the channel gets its turn. -/
  posts : ∀ k i data members, (f.state k).node.jobs (.service i) = .serving (.posting data members) →
    ∃ k', k ≤ k' ∧ ∃ nanos, (f.event k').input = .task (.post (.service i) nanos)

/-- A package that is originated waits in a call of the main task. -/
theorem serving_of_originated {i : Input E} {message : String} {nanos : Nat}
    (hs : (machine calculateHash E).step r i = some (r', e))
    (hinput : e.input = .task (.originate message nanos)) :
    r.node.services < r'.node.services ∧ r'.node.jobs (.service r.node.services) =
      .serving (.posting (newPackage calculateHash r.node message nanos) r.node.members) := by
  cases moved_of_step hs with
  | @task input node' ev _ _ hnode =>
      cases hinput
      cases stepped_of_step hnode with
      | originated => exact ⟨Nat.lt_succ_self _, by simp [newPackage]⟩
  | turn hturn _ =>
      rw [input_resume] at hinput
      exact absurd hinput ((turn_cases hturn).2.1 _)

section Fair

variable {r₀ : Awaiting E} {f : (machine calculateHash E).Forever WellFed r₀}

theorem healthy_state (hhealthy : Healthy r₀) (k : Nat) : Healthy (f.state k) :=
  f.invariant hhealthy (fun h hs hfed => (healthy_step h hs hfed).1) k

/-- As long as a command is unfinished, the actor takes a step. -/
theorem turn_of_ahead (hfair : Fair f) {command : EchoBroadcastMessage E} {n k : Nat}
    (h : Ahead command n (f.state k)) : ∃ k', k ≤ k' ∧ (f.event k').Turn := by
  obtain ⟨-, before, behind, hunfinished, -⟩ := h
  cases hsending : (f.state k).sending with
  | none =>
      have hqueue : (f.state k).node.queue ≠ [] := by
        have hchannel : (f.state k).loop.unfinished = (f.state k).node.queue := by
          simp only [loop, Loop.unfinished, phase, hsending]
          cases (f.state k).node.actor <;> rfl
        rw [← hchannel, hunfinished]
        simp
      obtain ⟨k', hk', htake⟩ := hfair.takes k hsending hqueue
      exact ⟨k', hk', Or.inl htake⟩
  | some call =>
      obtain ⟨k', hk', ok, hanswer⟩ := hfair.returns k (by simp [hsending])
      exact ⟨k', hk', Or.inr ⟨ok, hanswer⟩⟩

/-- A command that is handed over is the last of the unfinished ones. -/
theorem ahead_of_handed (hhealthy : Healthy r') {i : Input E} {command : EchoBroadcastMessage E}
    (hs : (machine calculateHash E).step r i = some (r', e)) (hhanded : e.handed = some command) :
    ∃ n, Ahead command n r' := by
  cases moved_of_step hs with
  | @task input node' ev _ hreach hnode =>
      obtain ⟨hactor, hqueue, -, -⟩ := actor_of_task hnode hreach
      have hlonger := (unfinished_post hactor hqueue).2
      have hcommand : ev.handed.toList = [command] := by rw [show ev.handed = some command from hhanded]; rfl
      rw [hcommand] at hlonger
      exact ⟨_, hhealthy, r.loop.unfinished, [], hlonger, rfl⟩
  | @turn _ li l' le _ _ =>
      rw [handed_resume] at hhanded
      cases hhanded

/-- The actor gets through with every command that it is handed. -/
theorem finished_of_handed (hfair : Fair f) (hhealthy : Healthy r₀) {k : Nat}
    {command : EchoBroadcastMessage E} (hhanded : (f.event k).handed = some command) :
    ∃ k', k < k' ∧ (f.event k').finished = some (command, true) := by
  have hstep : ∀ {n s i s' e}, Ahead command n s → (machine calculateHash E).step s i = some (s', e) →
      WellFed s e →
      e.finished = some (command, true) ∨ ∃ n', Ahead command n' s' ∧ n' ≤ n ∧ (e.Turn → n' < n) :=
    fun h hs hfed => ahead_step h hs hfed
  obtain ⟨i, hs⟩ := f.step k
  obtain ⟨n, hahead⟩ := ahead_of_handed (healthy_state hhealthy (k + 1)) hs hhanded
  exact f.eventually hstep (fun n k h => turn_of_ahead hfair h) hahead

/-- The main task hands over the package that it originates. -/
theorem handed_of_originated (hfair : Fair f) (hhealthy : Healthy r₀) {k : Nat} {message : String}
    {nanos : Nat} (horiginated : (f.event k).input = .task (.originate message nanos)) :
    ∃ k' tx, k < k' ∧ (f.event k').handed =
      some (.send (newPackage calculateHash (f.state k).node message nanos) (f.state k).node.members tx) := by
  obtain ⟨i, hs⟩ := f.step k
  have hwaits := serving_of_originated hs horiginated
  generalize newPackage calculateHash (f.state k).node message nanos = data at hwaits ⊢
  generalize (f.state k).node.members = members at hwaits ⊢
  generalize (f.state k).node.services = service at hwaits
  have hstep : ∀ {s i s' e}, Waits service data members s →
      (machine calculateHash E).step s i = some (s', e) → WellFed s e →
      (∃ tx, e.handed = some (.send data members tx)) ∨ (Waits service data members s' ∧
        ¬ ∃ nanos, e.input = .task (.post (.service service) nanos)) :=
    fun h hs hfed => waits_step h hs hfed
  have hfirst : Waits service data members (f.state (k + 1)) := ⟨healthy_state hhealthy (k + 1), hwaits⟩
  obtain ⟨k', hk', tx, hhanded⟩ :=
    f.eventually_of_act hstep (fun k h => hfair.posts k service data members h.2.2) hfirst
  exact ⟨k', tx, hk', hhanded⟩

/-- **A node whose reliable sends return processes its own broadcasts.** -/
theorem finished_of_originated (hfair : Fair f) (hhealthy : Healthy r₀) {k : Nat} {message : String}
    {nanos : Nat} (horiginated : (f.event k).input = .task (.originate message nanos)) :
    ∃ k' tx, k < k' ∧ (f.event k').finished =
      some (.send (newPackage calculateHash (f.state k).node message nanos) (f.state k).node.members tx,
        true) := by
  obtain ⟨k₁, tx, hk₁, hhanded⟩ := handed_of_originated hfair hhealthy horiginated
  obtain ⟨k', hk', hfinished⟩ := finished_of_handed hfair hhealthy hhanded
  exact ⟨k', tx, Nat.lt_trans hk₁ hk', hfinished⟩

end Fair

/-! ## The theorem -/

/-- No peer has harmed the actor: no command it was handed panics in any state, none that it is through
with did, and it is alive.  A node with a member can broadcast, and however it goes on, if the reliable
sends of its actor return, the actor processes every broadcast of its own. -/
structure Unharmed (calculateHash : String → MessageId) (tr : List (Event E)) (r : Awaiting E) : Prop where
  handed : ∀ e ∈ tr, ∀ command, e.handed = some command → ∀ (a : EchoBroadcastActor E) reach,
    a.handleMessage reach command ≠ none
  finished : ∀ e ∈ tr, ∀ command ok, e.finished = some (command, ok) → ok = true
  alive : r.node.actor ≠ none
  originates : r.node.members.keys ≠ [] → ∀ message nanos, ∃ r' e,
    (machine calculateHash E).step r (.task (.originate message nanos)) = some (r', e) ∧ WellFed r e
  serves : ∀ f : (machine calculateHash E).Forever WellFed r, Fair f → ∀ k message nanos,
    (f.event k).input = .task (.originate message nanos) → ∃ k' tx, k < k' ∧ (f.event k').finished =
      some (.send (newPackage calculateHash (f.state k).node message nanos) (f.state k).node.members tx,
        true)

/-- **Identified broadcasts do not harm the actor**, whatever else arrives, in whatever order, and
however the tasks of the node interleave with the awaits of the actor. -/
theorem unharmed_of_run {address : String} {tr : List (Event E)}
    (hrun : (machine calculateHash E).RunWith WellFed (new address) tr r) :
    Unharmed calculateHash tr r := by
  have hall : Healthy r ∧ ∀ e ∈ tr,
      (∀ command, e.handed = some command → SendsOnly Identified Populated command) ∧
        ∀ command ok, e.finished = some (command, ok) → ok = true := by
    refine hrun.invariant (I := fun tr r => Healthy r ∧ ∀ e ∈ tr,
      (∀ command, e.handed = some command → SendsOnly Identified Populated command) ∧
        ∀ command ok, e.finished = some (command, ok) → ok = true) ⟨healthy_new address, by simp⟩ ?_
    intro tr r i r' e _ ih hs hfed
    obtain ⟨hhealthy', hshown⟩ := healthy_step ih.1 hs hfed
    refine ⟨hhealthy', ?_⟩
    intro e' he'
    rcases List.mem_append.mp he' with hold | hlast
    · exact ih.2 e' hold
    · rw [List.mem_singleton.mp hlast]
      exact hshown
  obtain ⟨hhealthy, hevents⟩ := hall
  exact
    { handed := fun e he command hcommand a reach =>
        EchoTask.handleMessage_ne_none
          (wellIdentified_of_sendsOnly ((hevents e he).1 command hcommand)) a reach
      finished := fun e he => (hevents e he).2
      alive := Option.isSome_iff_ne_none.mp hhealthy.alive
      originates := fun hmembers message nanos => by
        refine ⟨_, _, rfl, fun input hinput => ?_⟩
        cases hinput
        exact ⟨by simp [Node.Event.quiet], fun _ => hmembers⟩
      serves := fun f hfair k message nanos horiginated =>
        finished_of_originated hfair hhealthy horiginated }

/-! ## One connection, one package -/

/-- A node with one registered connection. -/
def connected : Awaiting Unit := ⟨oneConnection, none⟩

omit [DecidableEq E] in
/-- No broadcast arrives, and no snapshot of an empty membership is taken. -/
theorem wellFed_of_input {r : Awaiting E} {e : Event E}
    (hinput : ∀ input, e.input = .task input → (∀ x m, input ≠ .arrive x (.broadcastMessage m)) ∧
      (r.node.members.keys ≠ [] ∨ ¬ Snapshots r.node (.quiet input))) : WellFed r e := by
  intro input heq
  obtain ⟨harrive, hmembers⟩ := hinput input heq
  exact ⟨fun x m h => absurd h (harrive x m), fun hsnapshot => hmembers.resolve_right fun h => h hsnapshot⟩

theorem run_connected :
    (machine hashLength Unit).RunWith WellFed (new "localhost:6680")
      [⟨.task (.connect () "127.0.0.1:50001"), [], none, [], none⟩,
        ⟨.task (.register ()), [], none, [], none⟩] connected := by
  have hconnect : (machine hashLength Unit).RunWith WellFed (new "localhost:6680")
      [⟨.task (.connect () "127.0.0.1:50001"), [], none, [], none⟩] _ :=
    Machine.RunWith.single (i := .task (.connect () "127.0.0.1:50001")) rfl
      (wellFed_of_input (by rintro input ⟨⟩; simp [Snapshots, Node.Event.quiet]))
  exact hconnect.snoc (i := .task (.register ())) rfl
    (wellFed_of_input (by rintro input ⟨⟩; simp [Snapshots, Node.Event.quiet]))

/-- The node when a package with a message id has arrived and been forwarded to the actor. -/
def forwarded : Awaiting Unit :=
  (((machine hashLength Unit).exec connected
    [.task (.arrive () (.package "localhost:6681" "hello" 1)), .task (.receive () 0),
      .task (.post (.eventLoop ()) 0)]).map Prod.fst).getD connected

theorem run_forwarded :
    ∃ tr, (machine hashLength Unit).RunWith WellFed (new "localhost:6680") tr forwarded := by
  refine ⟨_, ((run_connected.snoc (i := .task (.arrive () (.package "localhost:6681" "hello" 1)))
    rfl ?_).snoc (i := .task (.receive () 0)) rfl ?_).snoc (i := .task (.post (.eventLoop ()) 0)) rfl ?_⟩
  · rintro input ⟨⟩
    refine ⟨?_, by simp [Snapshots, Node.Event.quiet]⟩
    rintro e m ⟨⟩
    simp [Identified, Message.getMessageId]
  · exact wellFed_of_input (by rintro input ⟨⟩; exact ⟨by simp, Or.inl (by decide)⟩)
  · exact wellFed_of_input (by rintro input ⟨⟩; simp [Snapshots, Node.Event.quiet])

/-- How it goes on: the actor gets through with the package and with one of the node's own, and the main
task pings the peer from then on. -/
def servedInput : Nat → Input Unit
  | 0 => .take
  | 1 => .answer true
  | 2 => .task (.originate "hello from round one package" 1)
  | 3 => .task (.post (.service 0) 0)
  | 4 => .take
  | 5 => .answer true
  | _ => .task (.request () (.ping ⟨"localhost:6680", ""⟩) 0)

def servedState : Nat → Awaiting Unit
  | 0 => forwarded
  | k + 1 => ((step hashLength (servedState k) (servedInput k)).map Prod.fst).getD (servedState k)

def servedEvent (k : Nat) : Event Unit :=
  ((step hashLength (servedState k) (servedInput k)).map Prod.snd).getD ⟨servedInput k, [], none, [], none⟩

theorem servedState_idle (d : Nat) : servedState (d + 6) = servedState 6 := by
  induction d with
  | zero => rfl
  | succ d ih =>
      show ((step hashLength (servedState (d + 6)) (servedInput (d + 6))).map Prod.fst).getD _ = _
      rw [ih]
      rfl

theorem served_step (k : Nat) :
    step hashLength (servedState k) (servedInput k) = some (servedState (k + 1), servedEvent k) := by
  match k with
  | 0 | 1 | 2 | 3 | 4 | 5 => rfl
  | d + 6 =>
      rw [show d + 6 + 1 = d + 1 + 6 from by omega, servedState_idle (d + 1), servedEvent, servedState_idle d]
      rfl

theorem servedEvent_input (k : Nat) : (servedEvent k).input = servedInput k := by
  match k with
  | 0 | 1 | 2 | 3 | 4 | 5 => rfl
  | d + 6 =>
      rw [servedEvent, servedState_idle d]
      rfl

theorem servedState_members (k : Nat) : (servedState k).node.members.keys ≠ [] := by
  match k with
  | 0 | 1 | 2 | 3 | 4 | 5 => decide
  | d + 6 =>
      rw [servedState_idle d]
      decide

/-- The infinite execution. -/
def served : (machine hashLength Unit).Forever WellFed forwarded where
  state := servedState
  event := servedEvent
  start := rfl
  step := fun k => ⟨servedInput k, served_step k⟩
  guard := by
    intro k
    refine wellFed_of_input fun input hinput => ⟨?_, Or.inl (servedState_members k)⟩
    rintro x m rfl
    rw [servedEvent_input] at hinput
    match k with
    | 0 | 1 | 2 | 3 | 4 | 5 => cases hinput
    | d + 6 => cases hinput

theorem fair_served : Fair served where
  takes := by
    intro k hsending hqueue
    match k with
    | 0 => exact ⟨0, Nat.le_refl 0, rfl⟩
    | 1 | 5 => cases hsending
    | 2 | 3 => exact absurd rfl hqueue
    | 4 => exact ⟨4, Nat.le_refl 4, rfl⟩
    | d + 6 =>
        have hidle : (servedState (d + 6)).node.queue = [] := by rw [servedState_idle d]; rfl
        exact absurd hidle hqueue
  returns := by
    intro k hsending
    match k with
    | 0 | 2 | 3 | 4 => exact absurd rfl hsending
    | 1 => exact ⟨1, Nat.le_refl 1, true, rfl⟩
    | 5 => exact ⟨5, Nat.le_refl 5, true, rfl⟩
    | d + 6 =>
        have hidle : (servedState (d + 6)).sending = none := by rw [servedState_idle d]; rfl
        exact absurd hidle hsending
  posts := by
    intro k i data members hjob
    match k with
    | 0 | 1 | 2 => cases hjob
    | 3 =>
        match i with
        | 0 => exact ⟨3, Nat.le_refl 3, 0, rfl⟩
        | i + 1 => cases hjob
    | 4 | 5 => match i with
        | 0 => cases hjob
        | i + 1 => cases hjob
    | d + 6 =>
        have hidle : (servedState 6).node.jobs (.service i) = .serving (.posting data members) := by
          rw [← servedState_idle d]
          exact hjob
        match i with
        | 0 => cases hidle
        | i + 1 => cases hidle

/-- A package with a message id arrives and is forwarded: the actor has one Send to handle, and there is
an execution in which its reliable sends return and the node broadcasts a package of its own. -/
theorem unharmed_of_run_packageWithId :
    ∃ tr, (machine hashLength Unit).RunWith WellFed (new "localhost:6680") tr forwarded ∧
      forwarded.node.queue = [.send (.package "localhost:6681" "hello" 1) oneConnection.members 0] ∧
      Unharmed hashLength tr forwarded ∧
      ∃ f : (machine hashLength Unit).Forever WellFed forwarded, Fair f ∧
        (f.event 2).input = .task (.originate "hello from round one package" 1) ∧
        ∃ k' tx, 2 < k' ∧ (f.event k').finished =
          some (.send (newPackage hashLength (f.state 2).node "hello from round one package" 1)
            oneConnection.members tx, true) := by
  obtain ⟨tr, hrun⟩ := run_forwarded
  have hunharmed := unharmed_of_run hrun
  exact ⟨tr, hrun, rfl, hunharmed, served, fair_served, rfl,
    hunharmed.serves served fair_served 2 "hello from round one package" 1 rfl⟩

/-- A package without a message id is dispatched, and the node broadcasts a package of its own. -/
def packageWithoutId : List (Input Unit) :=
  [.task (.arrive () (.ofRoundOnePackage ⟨"localhost:6681", "hello"⟩)), .task (.receive () 0),
    .task (.post (.eventLoop ()) 0), .take,
    .task (.originate "hello from round one package" 1), .task (.post (.service 0) 0)]

/-- **A package WITHOUT a message id ends the actor.**  It decodes, arrives at a node with a member,
is forwarded as it came, and panics; the node's own next broadcast fails. -/
theorem harmed_packageWithoutId :
    (machine hashLength Unit).Reachable (new "localhost:6680") connected ∧
      connected.node.members.keys = ["127.0.0.1:50001"] ∧
      ∃ tr r, (machine hashLength Unit).Run connected tr r ∧ tr.map Event.input = packageWithoutId ∧
        (∃ e ∈ tr, e.finished =
          some (.send (.ofRoundOnePackage ⟨"localhost:6681", "hello"⟩) connected.node.members 0, false)) ∧
        r.node.actor = none ∧
        r.node.jobs (.service 0) = .returned (.error "Error sending echo broadcast") := by
  have hexec : (machine hashLength Unit).exec connected packageWithoutId = some (_, _) := rfl
  refine ⟨⟨_, run_connected.run⟩, rfl, _, _, Machine.run_of_exec hexec, rfl, ?_, rfl, rfl⟩
  exact ⟨_, List.mem_of_getElem? (i := 3) rfl, rfl⟩

end FrostFederation.Node.Awaiting
