/-
# FrostFederation.Lib.Pipe — the FIFO pipe, as the specification of a transport.

A pipe holds a list of values: they are put in at one end and taken out at the other, in order and
each of them once.  A system that moves values from one place to another, through whatever queues,
retries and failures, IMPLEMENTS the pipe if the puts and takes it shows are a run of the pipe.

For that it is enough that at every moment the values taken so far are a prefix of the values put so
far (`run_of_inOrder`).  What is put and never taken is allowed: the pipe may keep a value for ever.
-/
import FrostFederation.Lib.Run

namespace FrostFederation.Lib.Pipe

universe u

variable {α : Type u}

inductive Input (α : Type u) where
  | put (a : α)
  | take

inductive Event (α : Type u) where
  | put (a : α)
  | take (a : α)

def step (contents : List α) : Input α → Option (List α × Event α)
  | .put a => some (contents ++ [a], .put a)
  | .take =>
      match contents with
      | [] => none
      | a :: rest => some (rest, .take a)

def machine (α : Type u) : Machine (List α) (Input α) (Event α) := ⟨step⟩

namespace Event

def put? : Event α → Option α
  | .put a => some a
  | .take _ => none

def take? : Event α → Option α
  | .put _ => none
  | .take a => some a

end Event

/-- The values put in, in order. -/
def puts (tr : List (Event α)) : List α := tr.filterMap Event.put?

/-- The values taken out, in order. -/
def takes (tr : List (Event α)) : List α := tr.filterMap Event.take?

@[simp]
theorem puts_put (tr : List (Event α)) (a : α) : puts (tr ++ [.put a]) = puts tr ++ [a] := by
  simp [puts, Event.put?]

@[simp]
theorem puts_take (tr : List (Event α)) (a : α) : puts (tr ++ [.take a]) = puts tr := by
  simp [puts, Event.put?]

@[simp]
theorem takes_put (tr : List (Event α)) (a : α) : takes (tr ++ [.put a]) = takes tr := by
  simp [takes, Event.take?]

@[simp]
theorem takes_take (tr : List (Event α)) (a : α) : takes (tr ++ [.take a]) = takes tr ++ [a] := by
  simp [takes, Event.take?]

/-- **Whatever keeps the order at every moment is a pipe.** -/
theorem run_of_inOrder {tr : List (Event α)} (h : ∀ pre, pre <+: tr → takes pre <+: puts pre) :
    ∃ contents, (machine α).Run [] tr contents ∧ puts tr = takes tr ++ contents := by
  induction tr using List.reverseRecOn with
  | nil => exact ⟨[], .nil, rfl⟩
  | append_singleton tr e ih =>
      obtain ⟨contents, hrun, hall⟩ := ih fun pre hpre => h pre (hpre.trans (List.prefix_append _ _))
      cases e with
      | put a =>
          refine ⟨contents ++ [a], hrun.snoc (i := .put a) rfl trivial, ?_⟩
          rw [puts_put, takes_put, hall, List.append_assoc]
      | take a =>
          -- what is taken next is the first value the pipe holds
          have hlast := h _ List.prefix_rfl
          rw [takes_take, puts_take, hall, List.prefix_append_right_inj] at hlast
          obtain ⟨rest, rfl⟩ := hlast
          refine ⟨rest, hrun.snoc (i := .take) rfl trivial, ?_⟩
          rw [puts_take, takes_take, hall, List.append_assoc]

end FrostFederation.Lib.Pipe
