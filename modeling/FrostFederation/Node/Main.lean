/-
# FrostFederation.Node.Main — the main task of a node, from `start` to its accept loop.

The model of `Node::start`, `connect_to_seeds`, `listen`, `start_accept` and `send_membership`.  The
main task does one thing after the other: it connects to its seeds, each of them once and in order,
binds its listener, and then accepts one connection at a time.  For each of these it starts the event
loop, registers the connection, sends a handshake message, broadcasts a round-one package, and pushes
the membership.  `plan` is this program: what the task does next, and where it stands then.  All the
other tasks of the node run beside it.

Two of the three messages are sent under a timeout.  The package is NOT: the task waits until its call
of `EchoBroadcastHandle::send` has come back, and the only thing that brings it back is an event loop
that hands over a Send with the same message id, which is an echo of the package.  So every connection
after the first is paid for with such an echo, and a node whose peers do not echo accepts one
connection and no more.

The accept loop of `Node.Accept` is this program from `accepting` to `accepting` (`served_of_run`).
-/
import FrostFederation.Node.Accept
import FrostFederation.Node.Builder
import FrostFederation.Node.Waiting

namespace FrostFederation.Node

open FrostFederation.Lib
open FrostFederation.Protocol
open FrostFederation.EchoBroadcast (ReliableSenderMap)

/-! ## The program of the main task -/

/-- Where the main task stands. -/
inductive Stage (E : Type) where
  /-- `connect_to_seeds`, with the seeds that are left. -/
  | dialling (seeds : List String)
  /-- The event loop of a seed is running, and the connection is to be registered. -/
  | joining (e : E) (seeds : List String)
  /-- At `listener.accept()`. -/
  | accepting
  | adding (e : E)
  | greeting (e : E)
  | packaging (e : E)
  /-- In call `i` of the `EchoBroadcast` service. -/
  | broadcasting (e : E) (i : Nat)
  | pushing (e : E)
  /-- `start` has returned an error. -/
  | stopped (error : String)
  | panicked

/-- How setting up a connection ends.  `failed` is an error of the socket; the key, the handshake and
the address of the peer are unwrapped. -/
inductive SetUp (E : Type) where
  | failed
  | panicked
  | established (e : E) (address : String)

structure Main (E : Type) where
  node : Node E
  stage : Stage E

/-- The process ends with its main task. -/
def Stage.running {E : Type} : Stage E → Bool
  | .stopped _ => false
  | .panicked => false
  | _ => true

namespace Main

inductive Input (E : Type) where
  | dial (outcome : SetUp E)
  | bind (ok : Bool)
  | accept (outcome : SetUp E)
  | register
  | greet (nanos : Nat)
  | originate (nanos : Nat)
  | resume
  | push (nanos : Nat)
  /-- A step of another task. -/
  | background (input : Node.Input E)

structure Event (E : Type) where
  input : Input E
  node : Option (Node.Event E)

/-- What the other tasks do. -/
def background {E : Type} : Node.Input E → Bool
  | .connect _ _ => false
  | .register _ => false
  | .request _ _ _ => false
  | .originate _ _ => false
  | _ => true

variable {E : Type}

/-- The program: the step of the node an input stands for, if any, and the next stage. -/
def plan (node : Node E) : Stage E → Input E → Option (Option (Node.Input E) × Stage E)
  | .dialling (_ :: _), .dial .failed => some (none, .stopped "Connecting to seeds failed.")
  | .dialling (_ :: _), .dial .panicked => some (none, .panicked)
  | .dialling (_ :: seeds), .dial (.established e address) =>
      some (some (.connect e address), .joining e seeds)
  | .joining e seeds, .register => some (some (.register e), .dialling seeds)
  | .dialling [], .bind false => some (none, .stopped "Error starting listen")
  | .dialling [], .bind true => some (none, .accepting)
  -- `listener.accept()` is unwrapped
  | .accepting, .accept .failed => some (none, .panicked)
  | .accepting, .accept .panicked => some (none, .panicked)
  | .accepting, .accept (.established e address) => some (some (.connect e address), .adding e)
  | .adding e, .register => some (some (.register e), .greeting e)
  | .greeting e, .greet nanos =>
      some (some (.request e (.handshake ⟨"", "", ""⟩) nanos), .packaging e)
  | .packaging e, .originate nanos =>
      some (some (.originate "hello from round one package" nanos), .broadcasting e node.services)
  | .broadcasting e i, .resume =>
      match node.jobs (.service i) with
      | .returned _ => some (none, .pushing e)
      | _ => none
  | .pushing e, .push nanos =>
      some (some (.request e (.membership ⟨node.getNodeId, none⟩) nanos), .accepting)
  | stage, .background input =>
      if stage.running && background input then some (some input, stage) else none
  | _, _ => none

/-- The node that a sequence of builder calls makes, as it is started. -/
def start (calls : List BuilderCall) : Main E where
  node := (Settings.build calls).node
  stage := .dialling (Settings.build calls).seeds

variable [DecidableEq E]

def step (calculateHash : String → MessageId) (s : Main E) (input : Input E) :
    Option (Main E × Event E) :=
  match plan s.node s.stage input with
  | none => none
  | some (none, next) => some (⟨s.node, next⟩, ⟨input, none⟩)
  | some (some nodeInput, next) =>
      (Node.step calculateHash s.node nodeInput).map fun r => (⟨r.1, next⟩, ⟨input, some r.2⟩)

def machine (calculateHash : String → MessageId) (E : Type) [DecidableEq E] :
    Machine (Main E) (Input E) (Event E) :=
  ⟨step calculateHash⟩

variable {calculateHash : String → MessageId}

/-! ## What one step can do -/

/-- A step goes by the plan: it changes the stage only, or is a step of the node. -/
theorem step_cases {s s' : Main E} {input : Input E} {ev : Event E}
    (hs : (machine calculateHash E).step s input = some (s', ev)) :
    ev.input = input ∧
      ((plan s.node s.stage input = some (none, s'.stage) ∧ ev.node = none ∧ s'.node = s.node) ∨
        ∃ nodeInput nodeEv, plan s.node s.stage input = some (some nodeInput, s'.stage) ∧
          ev.node = some nodeEv ∧
          (Node.machine calculateHash E).step s.node nodeInput = some (s'.node, nodeEv)) := by
  simp only [machine, step] at hs
  split at hs
  · cases hs
  · next next hplan =>
      obtain ⟨rfl, rfl⟩ := Prod.mk.inj (Option.some.inj hs)
      exact ⟨rfl, Or.inl ⟨hplan, rfl, rfl⟩⟩
  · next nodeInput next hplan =>
      obtain ⟨r, hr, heq⟩ := Option.map_eq_some_iff.mp hs
      obtain ⟨rfl, rfl⟩ := Prod.mk.inj heq
      exact ⟨rfl, Or.inr ⟨nodeInput, r.2, hplan, rfl, hr⟩⟩

/-- The rows of the program. -/
inductive Planned (node : Node E) :
    Stage E → Input E → Option (Node.Input E) → Stage E → Prop
  | gaveUp {seed : String} {seeds : List String} :
      Planned node (.dialling (seed :: seeds)) (.dial .failed) none
        (.stopped "Connecting to seeds failed.")
  | dialPanicked {seed : String} {seeds : List String} :
      Planned node (.dialling (seed :: seeds)) (.dial .panicked) none .panicked
  | dialled {seed : String} {seeds : List String} {e : E} {address : String} :
      Planned node (.dialling (seed :: seeds)) (.dial (.established e address))
        (some (.connect e address)) (.joining e seeds)
  | joined {e : E} {seeds : List String} :
      Planned node (.joining e seeds) .register (some (.register e)) (.dialling seeds)
  | unbound : Planned node (.dialling []) (.bind false) none (.stopped "Error starting listen")
  | bound : Planned node (.dialling []) (.bind true) none .accepting
  | acceptFailed : Planned node .accepting (.accept .failed) none .panicked
  | acceptPanicked : Planned node .accepting (.accept .panicked) none .panicked
  | accepted {e : E} {address : String} :
      Planned node .accepting (.accept (.established e address)) (some (.connect e address)) (.adding e)
  | added {e : E} : Planned node (.adding e) .register (some (.register e)) (.greeting e)
  | greeted {e : E} {nanos : Nat} :
      Planned node (.greeting e) (.greet nanos) (some (.request e (.handshake ⟨"", "", ""⟩) nanos))
        (.packaging e)
  | packaged {e : E} {nanos : Nat} :
      Planned node (.packaging e) (.originate nanos)
        (some (.originate "hello from round one package" nanos)) (.broadcasting e node.services)
  | resumed {e : E} {i : Nat} {result : ConnectionResult}
      (hreturned : node.jobs (.service i) = .returned result) :
      Planned node (.broadcasting e i) .resume none (.pushing e)
  | pushed {e : E} {nanos : Nat} :
      Planned node (.pushing e) (.push nanos)
        (some (.request e (.membership ⟨node.getNodeId, none⟩) nanos)) .accepting
  | meanwhile {stage : Stage E} {input : Node.Input E} (hbackground : background input = true) :
      Planned node stage (.background input) (some input) stage

omit [DecidableEq E] in
theorem planned_of_plan {node : Node E} {stage next : Stage E} {input : Input E}
    {action : Option (Node.Input E)} (h : plan node stage input = some (action, next)) :
    Planned node stage input action next := by
  unfold plan at h
  split at h
  case h_13 =>
    split at h
    · next hreturned =>
        cases h
        exact .resumed hreturned
    · cases h
  case h_15 =>
    split at h
    · next hcond =>
        cases h
        exact .meanwhile (Bool.and_eq_true_iff.mp hcond).2
    · cases h
  case h_16 => cases h
  all_goals
    cases h
    constructor

/-- A call that is not on its way to the actor and does not wait for it stays as it is. -/
theorem idle_step {node node' : Node E} {input : Node.Input E} {ev : Node.Event E} {i : Nat}
    (hs : (Node.machine calculateHash E).step node input = some (node', ev))
    (horiginate : ∀ message nanos, input ≠ .originate message nanos)
    (hidle : (node.jobs (.service i)).send? = none) : (node'.jobs (.service i)).send? = none := by
  rw [service_kept hs horiginate]
  · exact hidle
  · rintro nanos rfl
    cases stepped_of_step hs with
    | posted hphase => simp [hidle] at hphase
    | refused hphase => simp [hidle] at hphase
  · rintro nanos rfl
    cases stepped_of_step hs with
    | woken hphase _ => simp [hidle] at hphase

/-! ## Connections and echoes -/

/-- A connection is accepted and set up. -/
def Event.accepts (ev : Event E) : Bool :=
  match ev.input with
  | .accept (.established _ _) => true
  | _ => false

/-- The message id of a package that the main task hands to the actor. -/
def Event.package? (ev : Event E) : Option MessageId :=
  match ev.node with
  | some ⟨.post (.service _) _, _, some (.send data _ _), _⟩ => data.getMessageId
  | _ => none

def postsEventLoop : Node.Input E → Bool
  | .post (.eventLoop _) _ => true
  | _ => false

/-- An event loop hands over a Send with one of these ids. -/
def Event.echoes (ids : List MessageId) (ev : Event E) : Bool :=
  ev.node.any fun nodeEv => postsEventLoop nodeEv.input && ids.any nodeEv.handsSend

/-- How many connections were accepted in a run. -/
def accepted (tr : List (Event E)) : Nat := tr.countP Event.accepts

/-- The ids of the node's own packages. -/
def packages (tr : List (Event E)) : List MessageId := tr.filterMap Event.package?

/-- How many echoes of its own packages the node's event loops have forwarded. -/
def echoed (tr : List (Event E)) : Nat := tr.countP (Event.echoes (packages tr))

omit [DecidableEq E] in
theorem accepted_snoc (tr : List (Event E)) (ev : Event E) :
    accepted (tr ++ [ev]) = accepted tr + ev.accepts.toNat := by
  cases hev : ev.accepts <;> simp [accepted, hev]

omit [DecidableEq E] in
theorem mem_packages_snoc {tr : List (Event E)} {m : MessageId} (ev : Event E)
    (h : m ∈ packages tr) : m ∈ packages (tr ++ [ev]) := by
  rw [packages, List.filterMap_append]
  exact List.mem_append_left _ h

omit [DecidableEq E] in
/-- Ids are added to the list only, so an echo stays one. -/
theorem echoed_snoc (tr : List (Event E)) (ev : Event E) :
    echoed tr + (ev.echoes (packages tr)).toNat ≤ echoed (tr ++ [ev]) := by
  have hmono : ∀ ev' : Event E, ev'.echoes (packages tr) = true →
      ev'.echoes (packages (tr ++ [ev])) = true := by
    intro ev' h
    obtain ⟨nodeEv, hnode, hpost, m, hm, hsend⟩ : ∃ nodeEv, ev'.node = some nodeEv ∧
        postsEventLoop nodeEv.input = true ∧ ∃ m ∈ packages tr, nodeEv.handsSend m = true := by
      simpa [Event.echoes, Option.any_eq_true] using h
    simp only [Event.echoes, hnode, hpost, Option.any_some, Bool.true_and, List.any_eq_true]
    exact ⟨m, mem_packages_snoc ev hm, hsend⟩
  have hold : echoed tr ≤ tr.countP (Event.echoes (packages (tr ++ [ev]))) :=
    List.countP_mono_left fun ev' _ => hmono ev'
  have hnew : echoed (tr ++ [ev]) = tr.countP (Event.echoes (packages (tr ++ [ev]))) +
      if ev.echoes (packages (tr ++ [ev])) = true then 1 else 0 := by
    rw [echoed, List.countP_append, List.countP_singleton]
  rw [hnew]
  cases hev : ev.echoes (packages tr) with
  | false => exact Nat.le_add_right_of_le hold
  | true =>
      rw [if_pos (hmono ev hev)]
      exact Nat.add_le_add_right hold 1

/-! ## The account -/

/-- The node's part in a step is smooth. -/
def Smoothly (s : Main E) (ev : Event E) : Prop :=
  ∀ nodeEv, ev.node = some nodeEv → Smooth s.node nodeEv

/-- Where call `i` of the main task stands: it has not come back, unless it has been paid for. -/
inductive Call (tr : List (Event E)) (node : Node E) (i : Nat) : Prop
  | posting {data : Message} {members : ReliableSenderMap E}
      (hphase : (node.jobs (.service i)).send? = some (.posting data members)) : Call tr node i
  | waiting {m : MessageId} {tx : Oneshot}
      (hphase : (node.jobs (.service i)).send? = some (.waiting tx)) (hown : m ∈ packages tr)
      (hwaits : Waits m tx node) (hresult : node.results tx = none) : Call tr node i
  | paid (hpaid : accepted tr ≤ echoed tr) : Call tr node i

/-- What the node owes, by where its main task stands. -/
def Account (tr : List (Event E)) (s : Main E) : Prop :=
  match s.stage with
  | .broadcasting _ i =>
      accepted tr ≤ echoed tr + 1 ∧ (∀ i', i' ≠ i → (s.node.jobs (.service i')).send? = none) ∧
        Call tr s.node i
  | .adding _ | .greeting _ | .packaging _ =>
      accepted tr ≤ echoed tr + 1 ∧ ∀ i, (s.node.jobs (.service i)).send? = none
  | .stopped _ | .panicked => accepted tr ≤ echoed tr + 1
  | .dialling _ | .joining _ _ | .accepting | .pushing _ =>
      accepted tr ≤ echoed tr ∧ ∀ i, (s.node.jobs (.service i)).send? = none

omit [DecidableEq E] in
theorem account_snoc {tr : List (Event E)} {ev : Event E} {k : Nat}
    (h : accepted tr ≤ echoed tr + k) (hev : ev.accepts = false) :
    accepted (tr ++ [ev]) ≤ echoed (tr ++ [ev]) + k := by
  have hecho := echoed_snoc tr ev
  rw [accepted_snoc, hev]
  simp only [Bool.toNat_false]
  omega

omit [DecidableEq E] in
theorem account_echo {tr : List (Event E)} {ev : Event E} (h : accepted tr ≤ echoed tr + 1)
    (hev : ev.accepts = false) (hechoes : ev.echoes (packages tr) = true) :
    accepted (tr ++ [ev]) ≤ echoed (tr ++ [ev]) := by
  have hecho := echoed_snoc tr ev
  rw [hechoes] at hecho
  rw [accepted_snoc, hev]
  simp only [Bool.toNat_false, Bool.toNat_true] at hecho ⊢
  omega

/-- **A call comes back only after an echo of its package.** -/
theorem call_step {tr : List (Event E)} {ev : Event E} {node node' : Node E} {input : Node.Input E}
    {nodeEv : Node.Event E} {i : Nat} (hsound : Sound node) (hnumbered : Numbered node)
    (howed : accepted tr ≤ echoed tr + 1) (hcall : Call tr node i)
    (hidle : ∀ i', i' ≠ i → (node.jobs (.service i')).send? = none) (haccepts : ev.accepts = false)
    (hnode : ev.node = some nodeEv) (hbackground : background input = true)
    (hs : (Node.machine calculateHash E).step node input = some (node', nodeEv))
    (hsmooth : Smooth node nodeEv) : Call (tr ++ [ev]) node' i := by
  have horiginate : ∀ message nanos, input ≠ .originate message nanos := by
    rintro message nanos rfl
    simp [background] at hbackground
  cases hcall with
  | paid hpaid => exact .paid (account_snoc (k := 0) hpaid haccepts)
  | @posting data members hphase =>
      by_cases hpost : ∃ nanos, input = .post (.service i) nanos
      · -- the package is handed over
        obtain ⟨nanos, rfl⟩ := hpost
        obtain ⟨hinput, hhanded⟩ := handed_of_post hsound.alive hphase hs
        have hadmits := (sound_step hsound (change_of_step hs) hsmooth.wellFed).2.1
        obtain ⟨data', members', tx, hcommand, hid, -⟩ := hadmits.handed _ hhanded
        cases hcommand
        obtain ⟨m, hm⟩ := Option.ne_none_iff_exists'.mp hid
        obtain ⟨hwaits, hresult, hwaiting⟩ := waits_of_posted hnumbered hs hinput hhanded hm
        refine .waiting hwaiting ?_ hwaits hresult
        rw [packages, List.filterMap_append]
        refine List.mem_append_right _ ?_
        obtain ⟨i₁, frames, handed, processed⟩ := nodeEv
        cases hinput
        cases hhanded
        simp [Event.package?, hnode, hm]
      · have hkept : node'.jobs (.service i) = node.jobs (.service i) := by
          refine service_kept hs horiginate (fun nanos heq => hpost ⟨nanos, heq⟩) ?_
          rintro nanos rfl
          cases stepped_of_step hs with
          | woken hwaiting _ => simp [hphase] at hwaiting
        exact .posting (by rw [hkept]; exact hphase)
  | @waiting m tx hphase hown hwaits hresult =>
      cases hhands : nodeEv.handsSend m with
      | false =>
          obtain ⟨hwaits', hresult'⟩ :=
            waits_step hsound (lt_of_waits hnumbered hwaits) hwaits hresult hs hsmooth hhands
          exact .waiting (waiting_step hnumbered hphase hresult hs (by simp))
            (mem_packages_snoc ev hown) hwaits' hresult'
      | true =>
          -- the main task waits, so it is an event loop that hands this Send over
          refine .paid (account_echo howed haccepts ?_)
          obtain ⟨data, members, tx', hhanded, -⟩ := handsSend_of_handed hhands
          cases stepped_of_step hs with
          | @posted j nanos data' members' hposting =>
              cases j with
              | eventLoop e =>
                  simp only [Event.echoes, hnode, postsEventLoop, Option.any_some, Bool.true_and,
                    List.any_eq_true]
                  exact ⟨m, hown, hhands⟩
              | service i' =>
                  by_cases hi : i' = i
                  · subst hi
                    simp [hphase] at hposting
                  · simp [hidle i' hi] at hposting
          | _ => cases hhanded

/-- **One step keeps the account.** -/
theorem account_step {tr : List (Event E)} {s s' : Main E} {input : Input E} {ev : Event E}
    (hsound : Sound s.node) (hnumbered : Numbered s.node) (h : Account tr s)
    (hs : (machine calculateHash E).step s input = some (s', ev)) (hsmooth : Smoothly s ev) :
    Account (tr ++ [ev]) s' := by
  obtain ⟨hinput, hcases⟩ := step_cases hs
  obtain ⟨node, stage⟩ := s
  obtain ⟨node', stage'⟩ := s'
  rcases hcases with ⟨hplan, -, rfl⟩ | ⟨nodeInput, nodeEv, hplan, hnode, hstep⟩
  · -- the stage changes, and nothing else
    have hfree : ∀ {k : Nat}, accepted tr ≤ echoed tr + k → ev.accepts = false →
        accepted (tr ++ [ev]) ≤ echoed (tr ++ [ev]) + k := account_snoc
    cases planned_of_plan hplan with
    | bound => exact ⟨hfree (k := 0) h.1 (by rw [Event.accepts, hinput]), h.2⟩
    | @resumed e i result hreturned =>
        obtain ⟨-, hidle, hcall⟩ := h
        have hnone : (node'.jobs (.service i)).send? = none := by
          rw [hreturned]
          rfl
        cases hcall with
        | posting hphase => cases hnone.symm.trans hphase
        | waiting hphase => cases hnone.symm.trans hphase
        | paid hpaid =>
            refine ⟨hfree (k := 0) hpaid (by rw [Event.accepts, hinput]), fun i' => ?_⟩
            by_cases hi : i' = i
            · rw [hi]
              exact hnone
            · exact hidle i' hi
    | _ => exact hfree (Nat.le_succ_of_le h.1) (by rw [Event.accepts, hinput])
  · have hidle : (∀ message nanos, nodeInput ≠ .originate message nanos) →
        ∀ i, (node.jobs (.service i)).send? = none → (node'.jobs (.service i)).send? = none :=
      fun horiginate i => idle_step hstep horiginate
    -- steps that neither accept a connection nor touch a call
    have hkept : ∀ {k : Nat}, (∀ message nanos, nodeInput ≠ .originate message nanos) →
        ev.accepts = false →
        accepted tr ≤ echoed tr + k ∧ (∀ i, (node.jobs (.service i)).send? = none) →
        accepted (tr ++ [ev]) ≤ echoed (tr ++ [ev]) + k ∧
          ∀ i, (node'.jobs (.service i)).send? = none :=
      fun horiginate haccepts h => ⟨account_snoc h.1 haccepts, fun i => hidle horiginate i (h.2 i)⟩
    cases planned_of_plan hplan with
    | dialled => exact hkept (k := 0) (by simp) (by rw [Event.accepts, hinput]) h
    | joined => exact hkept (k := 0) (by simp) (by rw [Event.accepts, hinput]) h
    | added => exact hkept (by simp) (by rw [Event.accepts, hinput]) h
    | greeted => exact hkept (by simp) (by rw [Event.accepts, hinput]) h
    | pushed => exact hkept (k := 0) (by simp) (by rw [Event.accepts, hinput]) h
    | accepted =>
        refine ⟨?_, fun i => hidle (by simp) i (h.2 i)⟩
        have hecho := echoed_snoc tr ev
        have hone : ev.accepts = true := by rw [Event.accepts, hinput]
        have howed := h.1
        rw [accepted_snoc, hone]
        simp only [Bool.toNat_true]
        omega
    | @packaged e nanos =>
        rw [step_originate] at hstep
        obtain ⟨rfl, rfl⟩ := Prod.mk.inj (Option.some.inj hstep)
        refine ⟨account_snoc h.1 (by rw [Event.accepts, hinput]), fun i hi => ?_, ?_⟩
        · have hne : (Job.service i : Job E) ≠ .service node.services := by simpa using hi
          simpa [serving, setJob, Function.update_of_ne hne] using h.2 i
        · exact .posting (by simp only [serving, setJob, Function.update_self, Phase.send?]; rfl)
    | @meanwhile _ _ hbackground =>
        have haccepts : ev.accepts = false := by rw [Event.accepts, hinput]
        have horiginate : ∀ message nanos, nodeInput ≠ .originate message nanos := by
          rintro message nanos rfl
          simp [background] at hbackground
        cases stage with
        | broadcasting e i =>
            obtain ⟨howed, hothers, hcall⟩ := h
            exact ⟨account_snoc howed haccepts, fun i' hi => hidle horiginate i' (hothers i' hi),
              call_step hsound hnumbered howed hcall hothers haccepts hnode hbackground hstep
                (hsmooth nodeEv hnode)⟩
        | adding => exact hkept horiginate haccepts h
        | greeting => exact hkept horiginate haccepts h
        | packaging => exact hkept horiginate haccepts h
        | stopped => exact account_snoc h haccepts
        | panicked => exact account_snoc h haccepts
        | _ => exact hkept (k := 0) horiginate haccepts h

theorem account_of_run {calls : List BuilderCall} {tr : List (Event E)} {s : Main E}
    (hrun : (machine calculateHash E).RunWith Smoothly (start calls) tr s) :
    Sound s.node ∧ Numbered s.node ∧ Account tr s := by
  have hnew : (start calls : Main E).node = new.withBindAddress (Settings.build calls).bindAddress :=
    Settings.node_build calls
  refine hrun.invariant (I := fun tr s => Sound s.node ∧ Numbered s.node ∧ Account tr s) ?_ ?_
  · rw [hnew]
    exact ⟨sound_new _, numbered_new _, Nat.le_refl 0, fun _ => rfl⟩
  · rintro tr s i s' ev - ⟨hsound, hnumbered, haccount⟩ hs hsmooth
    refine ⟨?_, ?_, account_step hsound hnumbered haccount hs hsmooth⟩
    all_goals
      obtain ⟨-, ⟨-, -, hsame⟩ | ⟨nodeInput, nodeEv, -, hnode, hstep⟩⟩ := step_cases hs
    · rwa [hsame]
    · exact (sound_step hsound (change_of_step hstep) (hsmooth nodeEv hnode).wellFed).1
    · rwa [hsame]
    · exact numbered_step hsound hnumbered hstep (hsmooth nodeEv hnode)

/-- **Every connection after the first is paid for with an echo.**  As long as no reliable send fails, the
broadcasts that arrive carry ids and nobody broadcasts to an empty membership, a node has accepted at most
one connection more than its event loops have forwarded echoes of its own packages. -/
theorem accepted_le_echoed {calls : List BuilderCall} {tr : List (Event E)} {s : Main E}
    (hrun : (machine calculateHash E).RunWith Smoothly (start calls) tr s) :
    accepted tr ≤ echoed tr + 1 := by
  obtain ⟨-, -, haccount⟩ := account_of_run hrun
  unfold Account at haccount
  split at haccount
  · exact haccount.1
  · exact haccount.1
  · exact haccount.1
  · exact haccount.1
  · exact haccount
  · exact haccount
  all_goals exact Nat.le_succ_of_le haccount.1

/-- A peer connects, echoes the package it is sent, and another peer connects. -/
def secondConnection : List (Input Bool) :=
  [.bind true, .accept (.established false "127.0.0.1:50001"), .register, .greet 0, .originate 1,
    .background (.post (.service 0) 0), .background (.actor fun _ => true),
    .background (.arrive false (.package "localhost:6680" "hello from round one package" 10)),
    .background (.receive false 0), .background (.post (.eventLoop false) 0),
    .background (.actor fun _ => true), .background (.wake (.service 0) 0), .resume, .push 0,
    .accept (.established true "127.0.0.1:50002")]

/-- The second connection is accepted, and one echo was forwarded before. -/
theorem accepted_le_echoed_secondConnection :
    ∃ tr s, (machine hashLength Bool).execWith (fun s ev => ev.node.all (fed s.node))
        (start [.seeds [], .bindAddress "localhost:6680"]) secondConnection = some (s, tr) ∧
      accepted tr = 2 ∧ echoed tr = 1 ∧ accepted tr ≤ echoed tr + 1 := by
  obtain ⟨tr, s, hexec, haccepted, hechoed, hinputs⟩ : ∃ tr s,
      (machine hashLength Bool).execWith (fun s ev => ev.node.all (fed s.node))
        (start [.seeds [], .bindAddress "localhost:6680"]) secondConnection = some (s, tr) ∧
      accepted tr = 2 ∧ echoed tr = 1 ∧ tr.filterMap (fun ev => ev.node.map Node.Event.input) =
        [.connect false "127.0.0.1:50001", .register false,
          .request false (.handshake ⟨"", "", ""⟩) 0, .originate "hello from round one package" 1,
          .post (.service 0) 0, .actor fun _ => true,
          .arrive false (.package "localhost:6680" "hello from round one package" 10),
          .receive false 0, .post (.eventLoop false) 0, .actor fun _ => true, .wake (.service 0) 0,
          .request false (.membership ⟨"localhost:6680", none⟩) 0, .connect true "127.0.0.1:50002"] :=
    ⟨_, _, rfl, rfl, rfl, rfl⟩
  -- every reliable send succeeds
  have hreach : ∀ ev ∈ tr, ∀ nodeEv, ev.node = some nodeEv →
      ∀ reach, nodeEv.input = .actor reach → reach = fun _ => true := by
    intro ev hev nodeEv hnode reach hreach
    have hmem : nodeEv.input ∈ tr.filterMap fun ev => ev.node.map Node.Event.input :=
      List.mem_filterMap.mpr ⟨ev, hev, by rw [hnode, Option.map_some]⟩
    rw [hinputs, hreach] at hmem
    simpa using hmem
  have hrun : (machine hashLength Bool).RunWith Smoothly
      (start [.seeds [], .bindAddress "localhost:6680"]) tr s :=
    ((Machine.runWith_of_execWith hexec).strengthen hreach).mono fun s ev h nodeEv hnode =>
      ⟨wellFed_of_fed (by simpa [hnode] using h.1), h.2 nodeEv hnode⟩
  exact ⟨tr, s, hexec, haccepted, hechoed, accepted_le_echoed hrun⟩

/-! ## The accept loop -/

section Accept

open FrostFederation.Connection

variable {B : Type} (snow : Snow B) (staticKeyPem : String)

/-- How setting up an incoming connection ends, if it does. -/
def setUp : Incoming E B → Option (SetUp E)
  | .failed => some .failed
  | .accepted e socketAddr reader _ =>
      let noise : Outcome (NoiseHandler snow) := .unwrap (NoiseIo.new true staticKeyPem)
      match noise >>= fun noise => ConnectionTask.start noise true reader with
      | .done _ => some (.established e socketAddr)
      | .panicked => some .panicked
      | .waiting => none

/-- The connection, with what has become of the messages sent after its registration. -/
def announcing (back : Bool) : Incoming E B → Incoming E B
  | .failed => .failed
  | .accepted e socketAddr reader _ => .accepted e socketAddr reader back

def Event.accept? (ev : Event E) : Option (SetUp E) :=
  match ev.input with
  | .accept outcome => some outcome
  | _ => none

/-- Where `startAccept` is when the main task has accepted these connections and stands at this stage.
It has come back from all of them but perhaps the last. -/
def Served (members : ReliableSenderMap E) (incoming : List (Incoming E B)) : Stage E → Prop
  | .accepting => ∃ members',
      startAccept snow staticKeyPem members (incoming.map (announcing true)) = .done members'
  | .adding _ | .greeting _ | .packaging _ | .broadcasting _ _ | .pushing _ =>
      ∃ before last, incoming = before ++ [last] ∧
        startAccept snow staticKeyPem members (before.map (announcing true) ++ [announcing false last]) =
          .waiting ∧
        ∃ members', startAccept snow staticKeyPem members (incoming.map (announcing true)) = .done members'
  | .panicked => startAccept snow staticKeyPem members (incoming.map (announcing true)) = .panicked
  | .dialling _ | .joining _ _ | .stopped _ => False

variable {snow staticKeyPem}

omit [DecidableEq E] in
/-- The body of the loop by how the set-up ends. -/
theorem acceptConnection_announcing (members : ReliableSenderMap E) (back : Bool) (c : Incoming E B) :
    acceptConnection snow staticKeyPem members (announcing back c) =
      match setUp snow staticKeyPem c with
      | some (.established e socketAddr) => if back then .done (members.insert socketAddr e) else .waiting
      | some _ => .panicked
      | none => .waiting := by
  cases c with
  | failed => rfl
  | accepted e socketAddr reader announced =>
      simp only [announcing, acceptConnection, setUp]
      cases NoiseIo.new (N := NoiseHandler snow) true staticKeyPem with
      | none => rfl
      | some noise =>
          simp only [Outcome.unwrap_some, Outcome.done_bind]
          cases ConnectionTask.start noise true reader <;> rfl

omit [DecidableEq E] in
theorem startAccept_snoc {members members' : ReliableSenderMap E} {before : List (Incoming E B)}
    (hbefore : startAccept snow staticKeyPem members before = .done members') (last : Incoming E B) :
    startAccept snow staticKeyPem members (before ++ [last]) =
      acceptConnection snow staticKeyPem members' last := by
  induction before generalizing members with
  | nil =>
      obtain rfl := Outcome.done.inj hbefore
      show (acceptConnection snow staticKeyPem members last >>= Outcome.done) = _
      cases acceptConnection snow staticKeyPem members last <;> rfl
  | cons c before ih =>
      simp only [startAccept, List.cons_append, List.foldlM_cons] at hbefore ih ⊢
      cases hc : acceptConnection snow staticKeyPem members c with
      | done m =>
          rw [hc] at hbefore
          exact ih hbefore
      | panicked =>
          rw [hc] at hbefore
          cases hbefore
      | waiting =>
          rw [hc] at hbefore
          cases hbefore

omit [DecidableEq E] in
/-- Between two connections `startAccept` waits for the main task to come back. -/
theorem served_of_other {members : ReliableSenderMap E} {incoming : List (Incoming E B)} {node : Node E}
    {stage next : Stage E} {input : Input E} {action : Option (Node.Input E)}
    (h : Served snow staticKeyPem members incoming stage) (hplanned : Planned node stage input action next)
    (haccept : ∀ outcome, input ≠ .accept outcome) : Served snow staticKeyPem members incoming next := by
  cases hplanned with
  | gaveUp | dialPanicked | dialled | joined | unbound | bound => cases h
  | acceptFailed | acceptPanicked | accepted => exact absurd rfl (haccept _)
  | added | greeted | packaged | resumed _ | meanwhile _ => exact h
  | pushed =>
      obtain ⟨before, last, -, -, hdone⟩ := h
      exact hdone

omit [DecidableEq E] in
/-- The main task takes the next connection. -/
theorem served_of_accept {members : ReliableSenderMap E} {before : List (Incoming E B)}
    {last : Incoming E B} {node : Node E} {next : Stage E} {outcome : SetUp E}
    {action : Option (Node.Input E)} (h : Served snow staticKeyPem members before .accepting)
    (hsetUp : setUp snow staticKeyPem last = some outcome)
    (hplanned : Planned node .accepting (.accept outcome) action next) :
    Served snow staticKeyPem members (before ++ [last]) next := by
  obtain ⟨members', hdone⟩ := h
  have hlast : ∀ back, startAccept snow staticKeyPem members
      (before.map (announcing true) ++ [announcing back last]) =
        acceptConnection snow staticKeyPem members' (announcing back last) :=
    fun back => startAccept_snoc hdone _
  have hall : startAccept snow staticKeyPem members ((before ++ [last]).map (announcing true)) =
      acceptConnection snow staticKeyPem members' (announcing true last) := by
    rw [List.map_append, List.map_singleton]
    exact hlast true
  simp only [acceptConnection_announcing, hsetUp] at hlast hall
  cases hplanned with
  | acceptFailed => exact hall
  | acceptPanicked => exact hall
  | accepted => exact ⟨before, last, rfl, hlast false, _, hall⟩

/-- **The main task runs the accept loop**: whatever the other tasks do meanwhile, `startAccept` on the
connections that were accepted is done when the main task is back at `listener.accept()`, it has panicked
when the main task has, and it waits while the main task is busy with the last of them. -/
theorem served_of_run {s₀ s : Main E} {tr : List (Event E)} {incoming : List (Incoming E B)}
    (members : ReliableSenderMap E) (hrun : (machine calculateHash E).Run s₀ tr s)
    (hstart : s₀.stage = .accepting)
    (hincoming : incoming.map (setUp snow staticKeyPem) = (tr.filterMap Event.accept?).map some) :
    Served snow staticKeyPem members incoming s.stage := by
  refine hrun.invariant (I := fun tr s => ∀ incoming : List (Incoming E B),
    incoming.map (setUp snow staticKeyPem) = (tr.filterMap Event.accept?).map some →
    Served snow staticKeyPem members incoming s.stage) ?_ ?_ incoming hincoming
  · intro incoming hincoming
    obtain rfl : incoming = [] := by simpa using hincoming
    rw [hstart]
    exact ⟨members, rfl⟩
  · intro tr s input s' ev _ ih hs _ incoming hincoming
    obtain ⟨hinput, hcases⟩ := step_cases hs
    obtain ⟨action, hplanned⟩ : ∃ action, Planned s.node s.stage input action s'.stage := by
      rcases hcases with ⟨hplan, -, -⟩ | ⟨nodeInput, -, hplan, -, -⟩
      · exact ⟨_, planned_of_plan hplan⟩
      · exact ⟨_, planned_of_plan hplan⟩
    rw [List.filterMap_append, List.map_append] at hincoming
    by_cases haccept : ∃ outcome, input = .accept outcome
    · obtain ⟨outcome, rfl⟩ := haccept
      have hlast : [ev].filterMap Event.accept? = [outcome] := by simp [Event.accept?, hinput]
      rw [hlast] at hincoming
      obtain ⟨before, rest, rfl, hbefore, hrest⟩ := List.map_eq_append_iff.mp hincoming
      obtain ⟨last, rest, rfl, hsetUp, hnil⟩ := List.map_eq_cons_iff.mp hrest
      obtain rfl := List.map_eq_nil_iff.mp hnil
      have hserved := ih before hbefore
      generalize s.stage = stage at hserved hplanned
      generalize s'.stage = next at hplanned ⊢
      obtain rfl : stage = .accepting := by cases hplanned <;> rfl
      exact served_of_accept hserved hsetUp hplanned
    · have hnone : ev.accept? = none := by
        unfold Event.accept?
        split
        · next outcome heq => exact absurd ⟨outcome, hinput.symm.trans heq⟩ haccept
        · rfl
      have hsame : [ev].filterMap Event.accept? = [] := by simp [hnone]
      rw [hsame, List.map_nil, List.append_nil] at hincoming
      exact served_of_other (ih incoming hincoming) hplanned fun outcome heq => haccept ⟨outcome, heq⟩

end Accept

end Main

end FrostFederation.Node
