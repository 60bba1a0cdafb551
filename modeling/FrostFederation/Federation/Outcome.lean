/-
# FrostFederation.Federation.Outcome — how a broadcast ends.

A client that broadcasts waits for the echoes of all members.  In the federation they never count as
echoes: a copy that arrives is handed to the actor as a Send, and nothing ever hands it an Echo.  So
NO broadcast returns `Ok`, in any run, and there is a run without any failure in which it returns an
error, because the copy that comes back replaces the waiter of the original.
-/
import FrostFederation.Federation.Round

namespace FrostFederation.Federation

open FrostFederation.Lib
open FrostFederation.Protocol

variable {N E : Type} [DecidableEq N] [DecidableEq E] {F : Federation N E}
  {calculateHash : String → MessageId}

/-! ## The connected state -/

/-- A node that has done nothing but connect. -/
structure Resting (node : Node E) : Prop where
  inbox : ∀ e, node.inbox e = []
  closed : ∀ e, node.closed e = false
  queue : node.queue = []
  actor : node.actor = some .start
  services : node.services = 0

theorem resting_connect {s : State N E} (h : ∀ n, Resting (s.node n)) (e : E) (n : N) :
    Resting ((F.connect s e).node n) := by
  have hold := h (F.owner e)
  refine (Function.forall_update_iff s.node fun _ node => Resting node).mpr ⟨?_, fun n' _ => h n'⟩ n
  exact ⟨hold.inbox, hold.closed, hold.queue, hold.actor, hold.services⟩

/-- The event loop of an endpoint is up. -/
def Up (F : Federation N E) (s : State N E) (e : E) : Prop :=
  ((s.node (F.owner e)).address e).isSome = true ∧
    (s.node (F.owner e)).jobs (.eventLoop e) = .receiving

theorem up_connect_self (s : State N E) (e : E) : F.Up (F.connect s e) e := by
  constructor <;> simp [connect, Node.addMember, Node.startConnectionEventLoop, Node.setJob]

theorem up_connect {s : State N E} {e e' : E} (h : F.Up s e) : F.Up (F.connect s e') e := by
  by_cases he : e = e'
  · rw [he]
    exact up_connect_self s e'
  · refine ⟨?_, by rw [eventLoop_connect s he]; exact h.2⟩
    by_cases hn : F.owner e = F.owner e'
    · have haddress := h.1
      rw [hn] at haddress
      simpa [connect, hn, Node.addMember, Node.startConnectionEventLoop, he] using haddress
    · simpa [connect, hn] using h.1

theorem connected_rests :
    (∀ n, Resting (F.connected.node n)) ∧ (∀ e, F.connected.link e = []) ∧ ∀ e, F.Up F.connected e := by
  -- over the endpoints connected so far: what was up stays up, and what is connected comes up
  have hfold : ∀ (l : List E) (s : State N E), (∀ n, Resting (s.node n)) → (∀ e, s.link e = []) →
      (∀ n, Resting ((l.foldl F.connect s).node n)) ∧ (∀ e, (l.foldl F.connect s).link e = []) ∧
        ∀ e, e ∈ l ∨ F.Up s e → F.Up (l.foldl F.connect s) e := by
    intro l
    induction l with
    | nil => exact fun s hrest hlink => ⟨hrest, hlink, fun e he => he.resolve_left (by simp)⟩
    | cons e₀ l ih =>
        intro s hrest hlink
        obtain ⟨hrest', hlink', hup⟩ := ih (F.connect s e₀) (resting_connect hrest e₀) hlink
        refine ⟨hrest', hlink', ?_⟩
        rintro e (hmem | hold)
        · rcases List.mem_cons.mp hmem with rfl | htail
          · exact hup e (Or.inr (up_connect_self s e))
          · exact hup e (Or.inl htail)
        · exact hup e (Or.inr (up_connect hold))
  obtain ⟨hrest, hlink, hup⟩ := hfold F.endpoints F.initial
    (fun _ => ⟨fun _ => rfl, fun _ => rfl, rfl, rfl, rfl⟩) fun _ => rfl
  exact ⟨hrest, hlink, fun e => hup e (Or.inl (F.mem_endpoints e))⟩

/-- A registered endpoint of the connected state is ready. -/
theorem ready_connected {e : E}
    (hmember : (F.connected.node (F.owner e)).members.lookup (F.address e) = some e) :
    (F.connected.node (F.owner e)).Ready e := by
  obtain ⟨hrest, -, hup⟩ := connected_rests (F := F)
  have hnode := hrest (F.owner e)
  exact ⟨⟨hnode.inbox e, hnode.closed e, (hup e).1, (hup e).2, ⟨_, hmember⟩, hnode.queue⟩, hnode.actor⟩

/-! ## No broadcast returns Ok -/

theorem noOk_of_run {tr : List (Event N E)} {s : State N E}
    (hrun : (F.machine calculateHash).Run F.initial tr s) (n : N) : (s.node n).NoOk := by
  have hall : ∀ n, (s.node n).NoOk := by
    refine hrun.invariant (I := fun _ s => ∀ n, (s.node n).NoOk) ?_ ?_
    · exact fun n => ⟨by simp [initial, Node.new, Node.withBindAddress],
        by simp [initial, Node.new, Node.withBindAddress],
        by simp [initial, Node.new, Node.withBindAddress]⟩
    · intro tr s input s' ev _ ih hs _
      rcases node_of_moved (moved_of_step hs) with ⟨e, -, hnode⟩ |
        ⟨n, input, node, nodeEv, -, hstep, hnode, -⟩
      · rw [hnode]
        exact ih
      · rw [hnode]
        exact (Function.forall_update_iff s.node fun _ node => node.NoOk).mpr
          ⟨Node.noOk_step (ih n) (Node.change_of_step hstep), fun n' _ => ih n'⟩
  exact hall n

/-! ## The outcome of a broadcast -/

/-- The inputs that are a task going on by itself. -/
def ofTask : Node.Input E → Bool
  | .receive _ _ => true
  | .finish _ => true
  | .post _ _ => true
  | .wake _ _ => true
  | .timeout _ => true
  | .actor _ => true
  | _ => false

/-- No task can take a step and no message is under way. -/
def Quiescent (F : Federation N E) (calculateHash : String → MessageId) (s : State N E) : Prop :=
  (∀ e, s.link e = []) ∧ ∀ n input, ofTask input = true → F.permits n input = true →
    (Node.machine calculateHash E).step (s.node n) input = none

/-- Every two nodes have a connection that is registered at both ends. -/
def FullyConnected (F : Federation N E) : Prop :=
  ∀ n n', n ≠ n' → ∃ e, F.owner e = n ∧ F.owner (F.peer e) = n' ∧
    (F.connected.node n).members.lookup (F.address e) = some e ∧
    (F.connected.node n').members.lookup (F.address (F.peer e)) = some (F.peer e)

/-- What a client of `o` may expect of the one broadcast it makes when nothing fails: the call never
returns an error, and when everything has come to rest it has returned `Ok`. -/
def BroadcastSucceeds (F : Federation N E) (calculateHash : String → MessageId) (o : N)
    (message : String) (nanos : Nat) : Prop :=
  ∀ tr s, (F.machine calculateHash).RunWith (fun _ ev => Undisturbed ev) F.connected tr s →
    originations tr = [(o, message, nanos)] →
    (∀ text, (s.node o).jobs (.service 0) ≠ .returned (.error text)) ∧
      (F.Quiescent calculateHash s → (s.node o).jobs (.service 0) = .returned (.ok ()))

/-- **In a fully connected federation no broadcast succeeds**: without any failure it can return an
error, and no run at all, with failures or without, makes it return `Ok`. -/
theorem broadcast_fails (hfull : F.FullyConnected) {o p : N} (hpo : p ≠ o) (message : String)
    (nanos : Nat) :
    ¬ F.BroadcastSucceeds calculateHash o message nanos ∧
      ∀ tr s, (F.machine calculateHash).Run F.connected tr s →
        ∀ i, (s.node o).jobs (.service i) ≠ .returned (.ok ()) := by
  constructor
  · intro hsucceeds
    obtain ⟨e, howner, howner', hmember, hmember'⟩ := hfull o p hpo.symm
    rw [← howner] at hmember
    rw [← howner'] at hmember'
    obtain ⟨hrest, hlinks, -⟩ := connected_rests (F := F)
    obtain ⟨tr, s, hrun, horiginations, -, hreturned⟩ := round_trip calculateHash hlinks
      (ready_connected hmember) (ready_connected hmember') message nanos
    rw [howner] at horiginations hreturned
    rw [(hrest o).services] at hreturned
    exact (hsucceeds tr s hrun horiginations).1 _ hreturned
  · intro tr s hrun i
    obtain ⟨tr₀, hrun₀⟩ := reachable_connected F calculateHash
    exact (noOk_of_run (hrun₀.append hrun) o).returned (.service i)

/-! ## Two nodes -/

theorem fullyConnected_seeded : seeded.FullyConnected := by
  intro n n' hne
  refine ⟨n, rfl, ?_⟩
  cases n <;> cases n'
  · exact absurd rfl hne
  · exact ⟨rfl, rfl, rfl⟩
  · exact ⟨rfl, rfl, rfl⟩
  · exact absurd rfl hne

theorem broadcast_fails_seeded :
    ¬ seeded.BroadcastSucceeds hashLength true "hello from round one package" 1 ∧
      ∀ tr s, (seeded.machine hashLength).Run seeded.connected tr s →
        ∀ i, (s.node true).jobs (.service i) ≠ .returned (.ok ()) :=
  broadcast_fails fullyConnected_seeded (p := false) (by decide) "hello from round one package" 1

/-- **A broadcast that fails without a failure.**  The second of two nodes broadcasts; the first
echoes the package, and the second echoes the echo, which drops the waiter of its own broadcast. -/
theorem failed_echoedBack :
    ∃ tr s, (seeded.machine hashLength).RunWith (fun _ ev => Undisturbed ev) seeded.connected tr s ∧
      originations tr = [(true, "hello from round one package", 1)] ∧
      (s.node true).jobs (.service 0) = .returned (.error "Error sending echo broadcast") := by
  have hexec : (seeded.machine hashLength).exec seeded.connected
      (echoedBack ++ [.node true (.actor fun _ => true), .node true (.wake (.service 0) 0)]) =
    some (_, _) := rfl
  refine ⟨_, _, Machine.runWith_of_exec hexec ?_, rfl, rfl⟩
  intro i hi s s' ev hs
  refine undisturbed_of_step hs ?_ ?_
  · rintro e rfl
    simp [echoedBack] at hi
  · rintro n input rfl
    simp only [echoedBack, List.cons_append, List.nil_append, List.mem_cons, Input.node.injEq,
      List.not_mem_nil, reduceCtorEq, or_false, false_or] at hi
    rcases hi with h | h | h | h | h | h | h | h | h | h <;> rw [h.2] <;> simp [Calm]

end FrostFederation.Federation
