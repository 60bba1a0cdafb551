/-
# FrostFederation.Federation.Startup — in which order the nodes of a federation can be started.

A node connects to ALL its seeds before it binds its own listener, and gives up for good on the first
seed it cannot connect to.  So a seed has to listen when its turn comes, and the order in which the
nodes of a federation begin to listen is a topological order of their seed lists: a node that has
itself among its seeds, or whose seeds lead back to it, never accepts a connection.

A federation is here the settings of its nodes together with where the addresses lead.  Every node runs
its main task and all its other tasks (`Node.Main`), and the nodes are started in any order and
interleave in any way.
-/
import FrostFederation.Node.Main

namespace FrostFederation.Federation

open FrostFederation.Lib
open FrostFederation.Protocol
open FrostFederation.Node (Main Stage SetUp BuilderCall Settings)

/-- How the nodes of a federation are built, and the node whose listener an address leads to. -/
structure Deployment (N : Type) where
  calls : N → List BuilderCall
  resolve : String → Option N

/-- The listener is bound: connections to it are taken in by the operating system, whatever the main
task is doing. -/
def listening {E : Type} (s : Main E) : Bool :=
  match s.stage with
  | .accepting => true
  | .adding _ => true
  | .greeting _ => true
  | .packaging _ => true
  | .broadcasting _ _ => true
  | .pushing _ => true
  | _ => false

namespace Deployment

variable {N E : Type}

def seeds (D : Deployment N) (n : N) : List String := (Settings.build (D.calls n)).seeds

def initial (D : Deployment N) : N → Main E := fun n => Main.start (D.calls n)

/-- The connection to a seed needs a listener at its address, also one whose handshake then panics. -/
def permits (D : Deployment N) (s : N → Main E) (n : N) : Main.Input E → Bool
  | .dial .failed => true
  | .dial _ =>
      match (s n).stage with
      | .dialling (seed :: _) => (D.resolve seed).any fun n' => listening (s n')
      | _ => false
  | _ => true

variable [DecidableEq N] [DecidableEq E]

def step (D : Deployment N) (calculateHash : String → MessageId) (s : N → Main E)
    (input : N × Main.Input E) : Option ((N → Main E) × N × Main.Event E) :=
  if D.permits s input.1 input.2 then
    (Main.step calculateHash (s input.1) input.2).map fun r =>
      (Function.update s input.1 r.1, input.1, r.2)
  else none

def machine (D : Deployment N) (calculateHash : String → MessageId) :
    Machine (N → Main E) (N × Main.Input E) (N × Main.Event E) :=
  ⟨D.step calculateHash⟩

/-- The node that binds its listener. -/
def binder? (ev : N × Main.Event E) : Option N :=
  match ev.2.input with
  | .bind true => some ev.1
  | _ => none

/-- The nodes that have bound their listeners, in this order. -/
def started (tr : List (N × Main.Event E)) : List N := tr.filterMap binder?

/-- One of the seeds of `n` leads to `n'`. -/
def SeedOf (D : Deployment N) (n' n : N) : Prop := ∃ seed ∈ D.seeds n, D.resolve seed = some n'

/-- Every node comes after all its seeds. -/
def InOrder (D : Deployment N) (nodes : List N) : Prop :=
  ∀ pre n post, nodes = pre ++ n :: post → ∀ seed ∈ D.seeds n, ∃ n' ∈ pre, D.resolve seed = some n'

variable {D : Deployment N} {calculateHash : String → MessageId}

omit [DecidableEq N] in
theorem inOrder_snoc {nodes : List N} {n : N} (h : D.InOrder nodes)
    (hseeds : ∀ seed ∈ D.seeds n, ∃ n' ∈ nodes, D.resolve seed = some n') :
    D.InOrder (nodes ++ [n]) := by
  intro pre n₁ post heq
  rcases List.eq_nil_or_concat post with rfl | ⟨post, last, rfl⟩
  · obtain ⟨rfl, hlast⟩ := List.append_inj' heq rfl
    obtain rfl : n = n₁ := List.head_eq_of_cons_eq hlast
    exact hseeds
  · rw [List.concat_eq_append, ← List.cons_append, ← List.append_assoc] at heq
    exact h pre n₁ post (List.append_inj' heq rfl).1

omit [DecidableEq N] in
/-- The nodes of a list in order stand on a well-founded part of the seed lists. -/
theorem acc_of_inOrder {nodes : List N} (h : D.InOrder nodes) : ∀ n ∈ nodes, Acc D.SeedOf n := by
  induction nodes using List.reverseRecOn with
  | nil => simp
  | append_singleton nodes last ih =>
      have hbefore : ∀ n ∈ nodes, Acc D.SeedOf n :=
        ih fun pre n post heq => h pre n (post ++ [last]) (by rw [heq]; simp)
      intro n hn
      rcases List.mem_append.mp hn with hold | hlast
      · exact hbefore n hold
      · rw [List.mem_singleton.mp hlast]
        refine ⟨_, ?_⟩
        rintro n' ⟨seed, hseed, hresolve⟩
        obtain ⟨n₁, hn₁, hresolve₁⟩ := h nodes last [] rfl seed hseed
        obtain rfl := Option.some.inj (hresolve.symm.trans hresolve₁)
        exact hbefore n' hn₁

omit [DecidableEq N] in
theorem not_cyclic_of_acc {n : N} (h : Acc D.SeedOf n) : ¬ Relation.TransGen D.SeedOf n n := by
  have hacc := h.transGen
  clear h
  induction hacc with
  | intro n _ ih => exact fun hcycle => ih n hcycle hcycle

/-! ## The invariant -/

/-- How far a node has got, among nodes that have been started in this order: the seeds it is done with
lead to started nodes, and if it listens it has been started itself. -/
def Reached (D : Deployment N) (nodes : List N) (n : N) (s : Main E) : Prop :=
  match s.stage with
  | .dialling rest | .joining _ rest =>
      ∃ done, D.seeds n = done ++ rest ∧ ∀ seed ∈ done, ∃ n' ∈ nodes, D.resolve seed = some n'
  | _ => listening s = true → n ∈ nodes

omit [DecidableEq N] [DecidableEq E] in
theorem Reached.mono {nodes nodes' : List N} {n : N} {s : Main E} (h : D.Reached nodes n s)
    (hsub : ∀ n ∈ nodes, n ∈ nodes') : D.Reached nodes' n s := by
  have hmore : ∀ {rest : List String}, (∃ done, D.seeds n = done ++ rest ∧
        ∀ seed ∈ done, ∃ n' ∈ nodes, D.resolve seed = some n') →
      ∃ done, D.seeds n = done ++ rest ∧ ∀ seed ∈ done, ∃ n' ∈ nodes', D.resolve seed = some n' := by
    rintro rest ⟨done, hdone, hall⟩
    refine ⟨done, hdone, fun seed hseed => ?_⟩
    obtain ⟨n', hn', hresolve⟩ := hall seed hseed
    exact ⟨n', hsub n' hn', hresolve⟩
  unfold Reached at h ⊢
  split at h
  · exact hmore h
  · exact hmore h
  · exact fun hlistening => hsub n (h hlistening)

omit [DecidableEq N] [DecidableEq E] in
theorem Reached.mem_of_listening {nodes : List N} {n : N} {s : Main E} (h : D.Reached nodes n s)
    (hlistening : listening s = true) : n ∈ nodes := by
  unfold Reached at h
  split at h
  · next hstage => simp [listening, hstage] at hlistening
  · next hstage => simp [listening, hstage] at hlistening
  · exact h hlistening

omit [DecidableEq N] in
/-- A step of a node: it gets no further than its seeds allow, and it is done with all of them when it
binds its listener. -/
theorem reached_step {nodes : List N} {s : N → Main E} {n : N} {input : Main.Input E} {s' : Main E}
    {ev : Main.Event E} (hall : ∀ n, D.Reached nodes n (s n)) (hpermits : D.permits s n input = true)
    (hs : (Main.machine calculateHash E).step (s n) input = some (s', ev)) :
    (binder? (n, ev) = none ∧ D.Reached nodes n s') ∨
      (binder? (n, ev) = some n ∧ D.Reached (nodes ++ [n]) n s' ∧
        ∀ seed ∈ D.seeds n, ∃ n' ∈ nodes, D.resolve seed = some n') := by
  obtain ⟨hinput, action, hplan⟩ :
      ev.input = input ∧ ∃ action, Main.plan (s n).node (s n).stage input = some (action, s'.stage) := by
    obtain ⟨hinput, ⟨hplan, -⟩ | ⟨nodeInput, nodeEv, hplan, -⟩⟩ := Main.step_cases hs
    · exact ⟨hinput, _, hplan⟩
    · exact ⟨hinput, _, hplan⟩
  have hreached := hall n
  unfold permits at hpermits
  obtain ⟨node', stage'⟩ := s'
  generalize s n = main at hreached hplan hpermits
  obtain ⟨node, stage⟩ := main
  cases Main.planned_of_plan hplan with
  | @dialled seed rest e address =>
      -- somebody listens at the address of the seed
      obtain ⟨n', hresolve, hlistening⟩ : ∃ n', D.resolve seed = some n' ∧ listening (s n') = true := by
        simpa [Option.any_eq_true] using hpermits
      obtain ⟨done, hdone, hstarted⟩ := hreached
      refine Or.inl ⟨by rw [binder?, hinput], done ++ [seed], by rw [hdone]; simp, ?_⟩
      intro seed' hseed'
      rcases List.mem_append.mp hseed' with hold | hlast
      · exact hstarted seed' hold
      · rw [List.mem_singleton.mp hlast]
        exact ⟨n', (hall n').mem_of_listening hlistening, hresolve⟩
  | joined => exact Or.inl ⟨by rw [binder?, hinput], hreached⟩
  | bound =>
      obtain ⟨done, hdone, hstarted⟩ := hreached
      refine Or.inr ⟨by rw [binder?, hinput], fun _ => by simp, ?_⟩
      rw [hdone, List.append_nil]
      exact hstarted
  | meanwhile => exact Or.inl ⟨by rw [binder?, hinput], hreached⟩
  | gaveUp => exact Or.inl ⟨by rw [binder?, hinput], fun h => by simp [listening] at h⟩
  | dialPanicked => exact Or.inl ⟨by rw [binder?, hinput], fun h => by simp [listening] at h⟩
  | unbound => exact Or.inl ⟨by rw [binder?, hinput], fun h => by simp [listening] at h⟩
  | acceptFailed => exact Or.inl ⟨by rw [binder?, hinput], fun h => by simp [listening] at h⟩
  | acceptPanicked => exact Or.inl ⟨by rw [binder?, hinput], fun h => by simp [listening] at h⟩
  | _ => exact Or.inl ⟨by rw [binder?, hinput], fun _ => hreached rfl⟩

/-- **Nodes begin to listen in the order of their seeds.**  In every run of a federation each node that
binds its listener comes after all the nodes its seeds lead to; so whoever listens stands on a
well-founded part of the seed lists, and a node whose seeds lead back to it never does. -/
theorem inOrder_of_run {tr : List (N × Main.Event E)} {s : N → Main E}
    (hrun : (D.machine calculateHash).Run D.initial tr s) :
    D.InOrder (started tr) ∧ (∀ n, listening (s n) = true → n ∈ started tr ∧ Acc D.SeedOf n) ∧
      ∀ n, Relation.TransGen D.SeedOf n n → listening (s n) = false := by
  have hinv : D.InOrder (started tr) ∧ ∀ n, D.Reached (started tr) n (s n) := by
    refine hrun.invariant (I := fun tr s => D.InOrder (started tr) ∧ ∀ n, D.Reached (started tr) n (s n))
      ⟨?_, fun n => ?_⟩ ?_
    · intro pre n post heq
      simp [started] at heq
    · exact ⟨[], rfl, by simp⟩
    · rintro tr s ⟨n, input⟩ s' ⟨n₁, ev⟩ - ⟨horder, hall⟩ hs -
      simp only [machine, step] at hs
      split at hs
      · next hpermits =>
          obtain ⟨⟨main', ev'⟩, hmain, heq⟩ := Option.map_eq_some_iff.mp hs
          cases heq
          have hsnoc : started (tr ++ [(n, ev')]) = started tr ++ (binder? (n, ev')).toList := by
            cases hbinder : binder? (n, ev') <;> simp [started, hbinder]
          rcases reached_step hall hpermits hmain with ⟨hnone, hreached⟩ | ⟨hsome, hreached, hseeds⟩
          · rw [hsnoc, hnone, Option.toList_none, List.append_nil]
            exact ⟨horder, (Function.forall_update_iff s fun n main => D.Reached _ n main).mpr
              ⟨hreached, fun n' _ => hall n'⟩⟩
          · rw [hsnoc, hsome, Option.toList_some]
            refine ⟨inOrder_snoc horder hseeds,
              (Function.forall_update_iff s fun n main => D.Reached _ n main).mpr
                ⟨hreached, fun n' _ => (hall n').mono fun n hn => List.mem_append_left _ hn⟩⟩
      · cases hs
  obtain ⟨horder, hall⟩ := hinv
  have hacc : ∀ n, listening (s n) = true → n ∈ started tr ∧ Acc D.SeedOf n := by
    intro n hlistening
    have hmem := (hall n).mem_of_listening hlistening
    exact ⟨hmem, acc_of_inOrder horder n hmem⟩
  refine ⟨horder, hacc, fun n hcycle => ?_⟩
  rw [← Bool.not_eq_true]
  exact fun hlistening => not_cyclic_of_acc (hacc n hlistening).2 hcycle

/-- Two nodes, of which the second has the first as its seed. -/
def oneSeed : Deployment Bool where
  calls := fun n =>
    if n then [.seeds ["localhost:6680"], .bindAddress "localhost:6681"]
    else [.seeds [], .bindAddress "localhost:6680"]
  resolve := fun address =>
    if address = "localhost:6680" then some false
    else if address = "localhost:6681" then some true else none

/-- The seed is started first. -/
def seedFirst : List (Bool × Main.Input Unit) :=
  [(false, .bind true), (true, .dial (.established () "127.0.0.1:6680")), (true, .register),
    (true, .bind true)]

theorem inOrder_of_run_seedFirst :
    ∃ tr s, (oneSeed.machine hashLength).exec oneSeed.initial seedFirst = some (s, tr) ∧
      started tr = [false, true] ∧ listening (s true) = true ∧ Acc oneSeed.SeedOf true := by
  obtain ⟨tr, s, hexec, hstarted, hlistening⟩ : ∃ tr s,
      (oneSeed.machine hashLength).exec oneSeed.initial seedFirst = some (s, tr) ∧
        started tr = [false, true] ∧ listening (s true) = true := ⟨_, _, rfl, rfl, rfl⟩
  exact ⟨tr, s, hexec, hstarted, hlistening,
    ((inOrder_of_run (Machine.run_of_exec hexec)).2.1 true hlistening).2⟩

end Deployment

end FrostFederation.Federation
