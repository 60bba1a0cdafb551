/-
# FrostFederation.Lib.Run — labelled machines, their guarded runs, and the invariants they keep.

A machine steps on an input and emits one event; a run is the list of events of a finite execution.
Every run carries a GUARD, a condition on the state before each step and the event of that step:
the unguarded runs are the runs of the machine, and "in every run whose steps all meet the
condition" is a statement about guarded runs.  The rules below are the only inductions over runs
that the developments on top need: an invariant may speak about the events so far, a run splits at
any of its events, projects to the parts of a machine and is followed by a machine that simulates it,
a potential bounds its length, and a list of inputs can be executed to produce a run.  What has to
happen in the end is a statement about infinite executions, and rests on one progress rule.
-/
import Mathlib.Data.List.Induction

namespace FrostFederation.Lib

universe u v w

/-- A machine with states `σ`, inputs `ι` and events `ε`.  An input that is not enabled in a state
has no step there. -/
structure Machine (σ : Type u) (ι : Type v) (ε : Type w) where
  step : σ → ι → Option (σ × ε)

namespace Machine

variable {σ : Type u} {ι : Type v} {ε : Type w} (M : Machine σ ι ε)

/-- `RunWith G s tr s'` — the machine goes from `s` to `s'` emitting the events `tr`, and every
step meets the guard `G` on the state before it and its event. -/
inductive RunWith (G : σ → ε → Prop) (s₀ : σ) : List ε → σ → Prop
  | nil : RunWith G s₀ [] s₀
  | snoc {tr : List ε} {s s' : σ} {i : ι} {e : ε} :
      RunWith G s₀ tr s → M.step s i = some (s', e) → G s e → RunWith G s₀ (tr ++ [e]) s'

/-- The unguarded runs. -/
abbrev Run (s₀ : σ) : List ε → σ → Prop := M.RunWith (fun _ _ => True) s₀

/-- A state is reachable when some run ends there. -/
def Reachable (s₀ s : σ) : Prop := ∃ tr, M.Run s₀ tr s

variable {M}

section Rules

variable {G G' : σ → ε → Prop} {s₀ s₁ s₂ s : σ} {tr tr₁ tr₂ : List ε}

/-- One step is a run of one event. -/
theorem RunWith.single {i : ι} {e : ε} (h : M.step s₀ i = some (s, e)) (hG : G s₀ e) :
    M.RunWith G s₀ [e] s := by
  have hnil : M.RunWith G s₀ [] s₀ := .nil
  exact hnil.snoc h hG

/-- A run without events has not moved. -/
theorem RunWith.eq_of_nil (h : M.RunWith G s₀ [] s) : s = s₀ := by
  generalize hl : ([] : List ε) = l at h
  cases h with
  | nil => rfl
  | snoc => simp at hl

/-- **The invariant rule.**  A relation between the events so far and the state that holds at the
start and survives every guarded step holds along every guarded run. -/
theorem RunWith.invariant {I : List ε → σ → Prop} (h : M.RunWith G s₀ tr s) (hinit : I [] s₀)
    (hstep : ∀ {tr s i s' e}, M.RunWith G s₀ tr s → I tr s → M.step s i = some (s', e) → G s e →
      I (tr ++ [e]) s') : I tr s := by
  induction h with
  | nil => exact hinit
  | snoc hrun hs hG ih => exact hstep hrun ih hs hG

/-- A guard may be weakened. -/
theorem RunWith.mono (h : M.RunWith G s₀ tr s) (hGG' : ∀ s e, G s e → G' s e) :
    M.RunWith G' s₀ tr s := by
  induction h with
  | nil => exact .nil
  | snoc _ hs hG ih => exact ih.snoc hs (hGG' _ _ hG)

theorem RunWith.run (h : M.RunWith G s₀ tr s) : M.Run s₀ tr s :=
  h.mono fun _ _ _ => trivial

/-- A guard that only looks at the event holds at each event of the run. -/
theorem RunWith.forall_guard {P : ε → Prop} (h : M.RunWith (fun _ e => P e) s₀ tr s) :
    ∀ e ∈ tr, P e := by
  induction h with
  | nil =>
      intro e he
      cases he
  | snoc _ _ hP ih =>
      intro e he
      rcases List.mem_append.mp he with hold | hlast
      · exact ih e hold
      · rw [List.mem_singleton.mp hlast]
        exact hP

/-- A run whose events all meet a condition is a run guarded by it. -/
theorem RunWith.guarded {P : ε → Prop} (h : M.Run s₀ tr s) (hall : ∀ e ∈ tr, P e) :
    M.RunWith (fun _ e => P e) s₀ tr s := by
  induction h with
  | nil => exact .nil
  | @snoc tr s s' i e _ hs _ ih =>
      have hprev : ∀ e' ∈ tr, P e' := fun e' he' => hall e' (List.mem_append_left _ he')
      have hlast : P e := hall e (List.mem_append_right _ (List.mem_singleton.mpr rfl))
      exact (ih hprev).snoc hs hlast

/-- A guarded run whose events all meet a further condition is guarded by both. -/
theorem RunWith.strengthen {P : ε → Prop} (h : M.RunWith G s₀ tr s) (hall : ∀ e ∈ tr, P e) :
    M.RunWith (fun s e => G s e ∧ P e) s₀ tr s := by
  induction h with
  | nil => exact .nil
  | @snoc tr s s' i e _ hs hG ih =>
      have hprev : ∀ e' ∈ tr, P e' := fun e' he' => hall e' (List.mem_append_left _ he')
      have hlast : P e := hall e (List.mem_append_right _ (List.mem_singleton.mpr rfl))
      exact (ih hprev).snoc hs ⟨hG, hlast⟩

theorem RunWith.append (h₁ : M.RunWith G s₀ tr₁ s₁) (h₂ : M.RunWith G s₁ tr₂ s₂) :
    M.RunWith G s₀ (tr₁ ++ tr₂) s₂ := by
  induction h₂ with
  | nil => simpa using h₁
  | snoc _ hs hG ih =>
      rw [← List.append_assoc]
      exact ih.snoc hs hG

/-- The last step of a run with at least one event. -/
theorem RunWith.of_snoc {e : ε} (h : M.RunWith G s₀ (tr ++ [e]) s) :
    ∃ s₁ i, M.RunWith G s₀ tr s₁ ∧ M.step s₁ i = some (s, e) ∧ G s₁ e := by
  generalize hl : tr ++ [e] = l at h
  cases h with
  | nil => simp at hl
  | @snoc tr' s₁ _ i e' hrun hs hG =>
      obtain ⟨rfl, hlast⟩ := List.append_inj' hl rfl
      obtain rfl : e = e' := List.head_eq_of_cons_eq hlast
      exact ⟨s₁, i, hrun, hs, hG⟩

/-- A run splits wherever its list of events does. -/
theorem RunWith.split (h : M.RunWith G s₀ (tr₁ ++ tr₂) s) :
    ∃ s₁, M.RunWith G s₀ tr₁ s₁ ∧ M.RunWith G s₁ tr₂ s := by
  induction tr₂ using List.reverseRecOn generalizing s with
  | nil => exact ⟨s, by simpa using h, .nil⟩
  | append_singleton tr₂ e ih =>
      rw [← List.append_assoc] at h
      obtain ⟨s', i, hrun, hs, hG⟩ := h.of_snoc
      obtain ⟨s₁, h₁, h₂⟩ := ih hrun
      exact ⟨s₁, h₁, h₂.snoc hs hG⟩

/-- A run around one of its events: the run before it, its step, and the run after it. -/
theorem RunWith.around {e : ε} (h : M.RunWith G s₀ (tr₁ ++ e :: tr₂) s) :
    ∃ s₁ i s₂, M.RunWith G s₀ tr₁ s₁ ∧ M.step s₁ i = some (s₂, e) ∧ G s₁ e ∧
      M.RunWith G s₂ tr₂ s := by
  rw [← List.singleton_append, ← List.append_assoc] at h
  obtain ⟨s₂, hpre, hpost⟩ := h.split
  obtain ⟨s₁, i, hrun, hs, hG⟩ := hpre.of_snoc
  exact ⟨s₁, i, s₂, hrun, hs, hG, hpost⟩

/-- The first step of a run with at least one event. -/
theorem RunWith.of_cons {e : ε} (h : M.RunWith G s₀ (e :: tr) s) :
    ∃ i s₁, M.step s₀ i = some (s₁, e) ∧ G s₀ e ∧ M.RunWith G s₁ tr s := by
  have hsplit : M.RunWith G s₀ ([] ++ e :: tr) s := h
  obtain ⟨s₁, i, s₂, hnil, hs, hG, hrest⟩ := hsplit.around
  rw [hnil.eq_of_nil] at hs hG
  exact ⟨i, s₂, hs, hG, hrest⟩

/-- The last event of a kind. -/
theorem exists_last {P : ε → Prop} (h : ∃ e ∈ tr, P e) :
    ∃ pre e post, tr = pre ++ e :: post ∧ P e ∧ ∀ e' ∈ post, ¬ P e' := by
  induction tr using List.reverseRecOn with
  | nil => simp at h
  | append_singleton tr last ih =>
      by_cases hlast : P last
      · exact ⟨tr, last, [], rfl, hlast, by simp⟩
      · obtain ⟨e, he, hP⟩ := h
        have hold : e ∈ tr := by
          rcases List.mem_append.mp he with hmem | hmem
          · exact hmem
          · rw [List.mem_singleton.mp hmem] at hP
            exact absurd hP hlast
        obtain ⟨pre, e', post, rfl, hP', hafter⟩ := ih ⟨e, hold, hP⟩
        refine ⟨pre, e', post ++ [last], by simp, hP', ?_⟩
        intro e'' he''
        rcases List.mem_append.mp he'' with hmem | hmem
        · exact hafter e'' hmem
        · rw [List.mem_singleton.mp hmem]
          exact hlast

/-- The first event with which a property of the events so far holds. -/
theorem exists_first {P : List ε → Prop} (hnil : ¬ P []) (h : P tr) :
    ∃ pre e post, tr = pre ++ e :: post ∧ P (pre ++ [e]) ∧ ¬ P pre := by
  induction tr using List.reverseRecOn with
  | nil => exact absurd h hnil
  | append_singleton tr last ih =>
      by_cases hbefore : P tr
      · obtain ⟨pre, e, post, rfl, hnow, hnot⟩ := ih hbefore
        exact ⟨pre, e, post ++ [last], by simp, hnow, hnot⟩
      · exact ⟨tr, last, [], rfl, h, hbefore⟩

/-- **The projection rule.**  A run of a machine is a run of one of its parts, if each step is a step
of the part or leaves it alone. -/
theorem RunWith.project {σ' : Type u} {ι' : Type v} {ε' : Type w} {M' : Machine σ' ι' ε'}
    (h : M.RunWith G s₀ tr s) (part : σ → σ') (event : ε → Option ε')
    (hstep : ∀ {s i s' e}, M.step s i = some (s', e) →
      (event e = none ∧ part s' = part s) ∨
        ∃ i' e', event e = some e' ∧ M'.step (part s) i' = some (part s', e')) :
    M'.Run (part s₀) (tr.filterMap event) (part s) := by
  induction h with
  | nil => exact .nil
  | snoc _ hs _ ih =>
      rw [List.filterMap_append]
      rcases hstep hs with ⟨hnone, hsame⟩ | ⟨i', e', hsome, hs'⟩
      · simpa [hnone, hsame] using ih
      · simpa [hsome] using ih.snoc hs' trivial

/-- **The simulation rule.**  If a relation between two machines holds at the start, and the second
machine can follow each step of the first with a run that keeps it, then every run of the first is
followed by a run of the second. -/
theorem RunWith.simulate {σ' : Type u} {ι' : Type v} {ε' : Type w} {M' : Machine σ' ι' ε'}
    {H : σ' → ε' → Prop} {t₀ : σ'} {R : List ε → σ → List ε' → σ' → Prop}
    (h : M.RunWith G s₀ tr s) (hinit : R [] s₀ [] t₀)
    (hstep : ∀ {tr s i s' e tr' t}, M.RunWith G s₀ tr s → R tr s tr' t →
      M.step s i = some (s', e) → G s e →
      ∃ more t', M'.RunWith H t more t' ∧ R (tr ++ [e]) s' (tr' ++ more) t') :
    ∃ tr' t, M'.RunWith H t₀ tr' t ∧ R tr s tr' t := by
  induction h with
  | nil => exact ⟨[], t₀, .nil, hinit⟩
  | snoc hrun hs hG ih =>
      obtain ⟨tr', t, hfollow, hrel⟩ := ih
      obtain ⟨more, t', hmore, hrel'⟩ := hstep hrun hrel hs hG
      exact ⟨tr' ++ more, t', hfollow.append hmore, hrel'⟩

/-- **The potential rule.**  If every step lowers a potential, by one more when it shows an event of
some kind, then a run shows at most as many such events as the potential it starts with. -/
theorem RunWith.countP_add_le {p : ε → Bool} {m : σ → ℕ} (h : M.RunWith G s₀ tr s)
    (hstep : ∀ {s i s' e}, M.step s i = some (s', e) → (if p e then 1 else 0) + m s' ≤ m s) :
    tr.countP p + m s ≤ m s₀ := by
  induction h with
  | nil => simp
  | @snoc tr s s' i e _ hs _ ih =>
      have hlast := hstep hs
      rw [List.countP_append, List.countP_singleton]
      omega

/-- A machine whose every step lowers a measure has no infinite execution. -/
theorem not_forall_step {m : σ → ℕ} (hstep : ∀ {s i s' e}, M.step s i = some (s', e) → m s' < m s)
    (f : ℕ → σ) : ¬∀ k, ∃ i e, M.step (f k) i = some (f (k + 1), e) := by
  intro hsteps
  have hbound : ∀ k, k + m (f k) ≤ m (f 0) := by
    intro k
    induction k with
    | zero => omega
    | succ k ih =>
        obtain ⟨i, e, hs⟩ := hsteps k
        have hlt := hstep hs
        omega
  have habove := hbound (m (f 0) + 1)
  omega

end Rules

/-! ## Infinite executions -/

/-- An infinite execution, every step of which meets the guard. -/
structure Forever (M : Machine σ ι ε) (G : σ → ε → Prop) (s₀ : σ) where
  state : ℕ → σ
  event : ℕ → ε
  start : state 0 = s₀
  step : ∀ k, ∃ i, M.step (state k) i = some (state (k + 1), event k)
  guard : ∀ k, G (state k) (event k)

section Forever

variable {G : σ → ε → Prop} {s₀ : σ}

/-- A property that holds at the start and survives every guarded step holds at all times. -/
theorem Forever.invariant (f : M.Forever G s₀) {I : σ → Prop} (hinit : I s₀)
    (hstep : ∀ {s i s' e}, I s → M.step s i = some (s', e) → G s e → I s') (k : ℕ) : I (f.state k) := by
  induction k with
  | zero =>
      rw [f.start]
      exact hinit
  | succ k ih =>
      obtain ⟨i, hs⟩ := f.step k
      exact hstep ih hs (f.guard k)

/-- **The progress rule.**  `Wants n` says that some goal is at most `n` acts away.  If no step takes the
goal farther away, every act brings it nearer, and there is another act as long as the goal is wanted,
then the goal is met. -/
theorem Forever.eventually (f : M.Forever G s₀) {Wants : ℕ → σ → Prop} {acts met : ε → Prop}
    (hstep : ∀ {n s i s' e}, Wants n s → M.step s i = some (s', e) → G s e →
      met e ∨ ∃ n', Wants n' s' ∧ n' ≤ n ∧ (acts e → n' < n))
    (hacts : ∀ n k, Wants n (f.state k) → ∃ k', k ≤ k' ∧ acts (f.event k')) {n k : ℕ}
    (hwants : Wants n (f.state k)) : ∃ k', k ≤ k' ∧ met (f.event k') := by
  induction n using Nat.strongRecOn generalizing k with
  | ind n ih =>
      obtain ⟨k', hk', hact⟩ := hacts n k hwants
      -- up to the next act the goal is met or stays as near as it is
      have huntil : ∀ d, (∃ k₁, k ≤ k₁ ∧ met (f.event k₁)) ∨ ∃ n', n' ≤ n ∧ Wants n' (f.state (k + d)) := by
        intro d
        induction d with
        | zero => exact Or.inr ⟨n, Nat.le_refl n, hwants⟩
        | succ d ihd =>
            rcases ihd with hmet | ⟨n₁, hn₁, hwants₁⟩
            · exact Or.inl hmet
            · obtain ⟨i, hs⟩ := f.step (k + d)
              rcases hstep hwants₁ hs (f.guard _) with hmet | ⟨n₂, hwants₂, hn₂, -⟩
              · exact Or.inl ⟨k + d, Nat.le_add_right _ _, hmet⟩
              · exact Or.inr ⟨n₂, Nat.le_trans hn₂ hn₁, hwants₂⟩
      obtain ⟨d, rfl⟩ := Nat.exists_eq_add_of_le hk'
      rcases huntil d with hmet | ⟨n₁, hn₁, hwants₁⟩
      · exact hmet
      · obtain ⟨i, hs⟩ := f.step (k + d)
        rcases hstep hwants₁ hs (f.guard _) with hmet | ⟨n₂, hwants₂, -, hnear⟩
        · exact ⟨k + d, hk', hmet⟩
        · obtain ⟨k₁, hk₁, hmet⟩ := ih n₂ (Nat.lt_of_lt_of_le (hnear hact) hn₁) hwants₂
          exact ⟨k₁, by omega, hmet⟩

/-- The progress rule where the first act meets the goal. -/
theorem Forever.eventually_of_act (f : M.Forever G s₀) {Wants : σ → Prop} {acts met : ε → Prop}
    (hstep : ∀ {s i s' e}, Wants s → M.step s i = some (s', e) → G s e →
      met e ∨ (Wants s' ∧ ¬ acts e))
    (hacts : ∀ k, Wants (f.state k) → ∃ k', k ≤ k' ∧ acts (f.event k')) {k : ℕ}
    (hwants : Wants (f.state k)) : ∃ k', k ≤ k' ∧ met (f.event k') := by
  have hnear : ∀ {n s i s' e}, n = 0 ∧ Wants s → M.step s i = some (s', e) → G s e →
      met e ∨ ∃ n', (n' = 0 ∧ Wants s') ∧ n' ≤ n ∧ (acts e → n' < n) := by
    rintro n s i s' e ⟨-, hwants⟩ hs hG
    rcases hstep hwants hs hG with hmet | ⟨hwants', hnot⟩
    · exact Or.inl hmet
    · exact Or.inr ⟨0, ⟨rfl, hwants'⟩, Nat.zero_le n, fun hact => absurd hact hnot⟩
  have hfirst : (0 : ℕ) = 0 ∧ Wants (f.state k) := ⟨rfl, hwants⟩
  exact f.eventually hnear (fun n k h => hacts k h.2) hfirst

end Forever

/-! ## Executing a list of inputs -/

/-- Feed a list of inputs to the machine; `none` as soon as one of them is not enabled. -/
def exec (M : Machine σ ι ε) : σ → List ι → Option (σ × List ε)
  | s, [] => some (s, [])
  | s, i :: is =>
      match M.step s i with
      | none => none
      | some (s', e) =>
          match exec M s' is with
          | none => none
          | some (s'', es) => some (s'', e :: es)

/-- What is executed is a run, guarded by whatever its inputs guarantee. -/
theorem runWith_of_exec {G : σ → ε → Prop} {s s' : σ} {is : List ι} {es : List ε}
    (h : M.exec s is = some (s', es))
    (hG : ∀ i ∈ is, ∀ s s' e, M.step s i = some (s', e) → G s e) : M.RunWith G s es s' := by
  induction is generalizing s es with
  | nil =>
      obtain ⟨rfl, rfl⟩ : s = s' ∧ [] = es := by simpa [exec] using h
      exact .nil
  | cons i is ih =>
      cases hs : M.step s i with
      | none => simp [exec, hs] at h
      | some p =>
          obtain ⟨s₁, e⟩ := p
          cases hr : M.exec s₁ is with
          | none => simp [exec, hs, hr] at h
          | some q =>
              obtain ⟨s₂, es'⟩ := q
              obtain ⟨rfl, rfl⟩ : s₂ = s' ∧ e :: es' = es := by simpa [exec, hs, hr] using h
              have hrest := ih hr fun j hj => hG j (List.mem_cons_of_mem _ hj)
              exact (RunWith.single hs (hG i List.mem_cons_self _ _ _ hs)).append hrest

/-- Feed a list of inputs to the machine, checking a guard at every step. -/
def execWith (M : Machine σ ι ε) (g : σ → ε → Bool) : σ → List ι → Option (σ × List ε)
  | s, [] => some (s, [])
  | s, i :: is =>
      match M.step s i with
      | none => none
      | some (s', e) =>
          if g s e then (execWith M g s' is).map fun r => (r.1, e :: r.2) else none

/-- What is executed under a guard is a guarded run. -/
theorem runWith_of_execWith {g : σ → ε → Bool} {s s' : σ} {is : List ι} {es : List ε}
    (h : M.execWith g s is = some (s', es)) : M.RunWith (fun s e => g s e = true) s es s' := by
  induction is generalizing s es with
  | nil =>
      obtain ⟨rfl, rfl⟩ : s = s' ∧ [] = es := by simpa [execWith] using h
      exact .nil
  | cons i is ih =>
      unfold execWith at h
      cases hs : M.step s i with
      | none => simp [hs] at h
      | some p =>
          simp only [hs] at h
          split at h
          · next hg =>
              obtain ⟨r, hr, heq⟩ := Option.map_eq_some_iff.mp h
              obtain ⟨rfl, rfl⟩ := Prod.mk.inj heq
              exact (RunWith.single hs hg).append (ih hr)
          · cases h

theorem run_of_exec {s s' : σ} {is : List ι} {es : List ε} (h : M.exec s is = some (s', es)) :
    M.Run s es s' :=
  runWith_of_exec h fun _ _ _ _ _ _ => trivial

end Machine

end FrostFederation.Lib
