/-
# FrostFederation.Lib.HashMap — finite maps with the entry operations of a hash map.

A map is Mathlib's `AList`: a list of entries whose keys are pairwise distinct, so the order of the
entries is one possible iteration order and a statement over all maps ranges over all of them.
Mathlib supplies `insert`, `erase` and `lookup`; this module adds the entry operations (`orInsert`,
`upsert` over a default), the scan over all values, and the two-level lookup of a map of maps, each
with the lemmas that let a proof compute with lookups only.
-/
import Mathlib.Data.List.AList

namespace FrostFederation.Lib

universe u v w

/-- A finite map from `K` to `V`. -/
abbrev HashMap (K : Type u) (V : Type v) : Type (max u v) := AList (fun _ : K => V)

namespace HashMap

variable {K : Type u} {K' : Type w} {V : Type v} [DecidableEq K] [DecidableEq K']

theorem lookup_insert_eq_ite (m : HashMap K V) (k k' : K) (v : V) :
    (m.insert k v).lookup k' = if k' = k then some v else m.lookup k' := by
  split
  · next h => rw [h, AList.lookup_insert]
  · next h => rw [AList.lookup_insert_ne h]

theorem lookup_erase_eq_ite (m : HashMap K V) (k k' : K) :
    (m.erase k).lookup k' = if k' = k then none else m.lookup k' := by
  split
  · next h => rw [h, AList.lookup_erase]
  · next h => rw [AList.lookup_erase_ne h]

/-- Keys and lookups agree. -/
theorem mem_keys_iff_lookup (m : HashMap K V) (k : K) :
    k ∈ m.keys ↔ ∃ v, m.lookup k = some v := by
  rw [← Option.isSome_iff_exists, AList.lookup_isSome]
  exact AList.mem_keys.symm

/-- Entries and lookups agree. -/
theorem mem_entries_iff_lookup (m : HashMap K V) (k : K) (v : V) :
    (⟨k, v⟩ : (_ : K) × V) ∈ m.entries ↔ m.lookup k = some v :=
  AList.mem_lookup_iff.symm

/-- Inserting what a map already holds only moves the entry to the front. -/
theorem insert_perm_of_lookup {m : HashMap K V} {k : K} {v : V} (h : m.lookup k = some v) :
    (m.insert k v).entries.Perm m.entries := by
  refine List.lookup_ext (m.insert k v).nodupKeys m.nodupKeys ?_
  intro k' v'
  show v' ∈ (m.insert k v).lookup k' ↔ v' ∈ m.lookup k'
  rw [lookup_insert_eq_ite]
  split
  · next hk => rw [hk, h]
  · rfl

/-! ## Entry operations -/

/-- `entry(k).or_insert(v)`: a key that is present keeps its value. -/
def orInsert (m : HashMap K V) (k : K) (v : V) : HashMap K V :=
  match m.lookup k with
  | some _ => m
  | none => m.insert k v

theorem lookup_orInsert (m : HashMap K V) (k k' : K) (v : V) :
    (m.orInsert k v).lookup k' = if k' = k then some ((m.lookup k).getD v) else m.lookup k' := by
  unfold orInsert
  cases h : m.lookup k with
  | some b =>
      by_cases hk : k' = k
      · subst hk
        simp [h]
      · simp [hk]
  | none => simp [lookup_insert_eq_ite]

/-- `entry(k).or_default()` followed by an update `f` of the value in place. -/
def upsert [Inhabited V] (m : HashMap K V) (k : K) (f : V → V) : HashMap K V :=
  m.insert k (f ((m.lookup k).getD default))

/-- `values().all(p)`. -/
def allValues (m : HashMap K V) (p : V → Bool) : Bool :=
  m.entries.all fun entry => p entry.2

theorem allValues_iff (m : HashMap K V) (p : V → Bool) :
    m.allValues p = true ↔ ∀ k v, m.lookup k = some v → p v = true := by
  unfold allValues
  rw [List.all_eq_true]
  constructor
  · intro h k v hv
    exact h ⟨k, v⟩ ((mem_entries_iff_lookup m k v).mpr hv)
  · rintro h ⟨k, v⟩ hkv
    exact h k v ((mem_entries_iff_lookup m k v).mp hkv)

/-! ## Maps of maps -/

/-- The value under `k` and then `x` in a map of maps. -/
def lookup₂ (m : HashMap K' (HashMap K V)) (k : K') (x : K) : Option V :=
  (m.lookup k).bind fun inner => inner.lookup x

theorem lookup₂_of_lookup {m : HashMap K' (HashMap K V)} {k : K'} {inner : HashMap K V}
    (h : m.lookup k = some inner) (x : K) : lookup₂ m k x = inner.lookup x := by
  simp [lookup₂, h]

theorem lookup₂_insert (m : HashMap K' (HashMap K V)) (k k' : K') (inner : HashMap K V) (x : K) :
    lookup₂ (m.insert k inner) k' x = if k' = k then inner.lookup x else lookup₂ m k' x := by
  unfold lookup₂
  rw [lookup_insert_eq_ite]
  split <;> simp

/-- One value set in an inner map that holds what the outer map holds under its key. -/
theorem lookup₂_insert_insert {m : HashMap K' (HashMap K V)} {k : K'} {inner : HashMap K V}
    (hinner : ∀ x, inner.lookup x = lookup₂ m k x) (x : K) (v : V) (k' : K') (x' : K) :
    lookup₂ (m.insert k (inner.insert x v)) k' x' =
      if k' = k ∧ x' = x then some v else lookup₂ m k' x' := by
  rw [lookup₂_insert, lookup_insert_eq_ite, hinner]
  by_cases hk : k' = k
  · subst hk
    by_cases hx : x' = x <;> simp [hx]
  · simp [hk]

/-- No inner map is empty: a key under which nothing is found is not there. -/
def Filled (m : HashMap K' (HashMap K V)) : Prop := ∀ k, (∀ x, lookup₂ m k x = none) → m.lookup k = none

theorem filled_empty : Filled (∅ : HashMap K' (HashMap K V)) := fun _ _ => rfl

theorem filled_insert {m : HashMap K' (HashMap K V)} (h : Filled m) (k : K') (inner : HashMap K V)
    (x : K) (v : V) : Filled (m.insert k (inner.insert x v)) := by
  intro k' hnone
  by_cases hk : k' = k
  · -- the key that was inserted holds a value under `x`
    have hx := hnone x
    rw [lookup₂_insert, if_pos hk, lookup_insert_eq_ite, if_pos rfl] at hx
    cases hx
  · rw [lookup_insert_eq_ite, if_neg hk]
    apply h
    intro x'
    rw [← hnone x', lookup₂_insert, if_neg hk]

end HashMap

end FrostFederation.Lib
