/-
# FrostFederation.Lib.Serde — a self-describing data model, and decoders of derived types.

What a derived serializer hands to a format, and what a derived deserializer is handed by one, is a
`Value`.  A format stores the entries of a map sorted by key, so an `object` is built from fields in
any order and a decoder must find them by NAME; `field_sortByKey` says that it does.  Enums are
externally tagged: a map with one entry, the name of the variant.  An untagged choice (`firstOf`)
tries its variants in turn, so it is faithful only if no variant accepts the encoding of a later one.

A FORMAT takes values to buffers and back, provided that they are well formed: numbers of 64 bits, and
maps sorted by key with no key twice.  Nothing here looks into a buffer.
-/
import Mathlib.Algebra.Group.Nat.Defs
import Mathlib.Data.List.Sort
import Mathlib.Data.String.Basic

namespace FrostFederation.Lib.Serde

universe u

/-! ## Values -/

inductive Value where
  | unit
  | uint (n : Nat)
  | str (s : String)
  | seq (items : List Value)
  | map (entries : List (String × Value))

inductive Error where
  | invalidType
  | invalidLength
  | outOfRange
  | missingField (name : String)
  | duplicateField (name : String)
  | unknownField (name : String)
  | unknownVariant (name : String)
  | noMatchingVariant
  | custom (message : String)
  deriving DecidableEq, Repr

/-- Entries in the order a format stores them. -/
def sortByKey (entries : List (String × Value)) : List (String × Value) :=
  entries.insertionSort fun a b => a.1 ≤ b.1

namespace Value

/-- A struct with named fields. -/
def object (entries : List (String × Value)) : Value := map (sortByKey entries)

/-- A variant of an externally tagged enum. -/
def variant (name : String) (content : Value) : Value := map [(name, content)]

/-- An optional value: nothing is the unit. -/
def option {α : Type u} (encode : α → Value) : Option α → Value
  | none => unit
  | some a => encode a

end Value

/-! ## Decoders -/

abbrev Decoder (α : Type u) := Value → Except Error α

variable {α β : Type u}

def string : Decoder String
  | .str s => .ok s
  | _ => .error .invalidType

/-- An unsigned number below a bound. -/
def unsigned (bound : Nat) : Decoder Nat
  | .uint n => if n < bound then .ok n else .error .outOfRange
  | _ => .error .invalidType

def u64 : Decoder UInt64 := fun v => (unsigned (2 ^ 64) v).map UInt64.ofNat

def option (decode : Decoder α) : Decoder (Option α)
  | .unit => .ok none
  | v => (decode v).map some

def vec (decode : Decoder α) : Decoder (List α)
  | .seq items => items.mapM decode
  | _ => .error .invalidType

/-- The fields of a struct: from a map as they come, from a sequence by position. -/
def fields (names : List String) : Decoder (List (String × Value))
  | .map entries => .ok entries
  | .seq items =>
      if items.length = names.length then .ok (names.zip items) else .error .invalidLength
  | _ => .error .invalidType

/-- The value of a field, if it is there; a field must not be there twice. -/
def field (entries : List (String × Value)) (name : String) : Except Error (Option Value) :=
  match entries.filter fun entry => entry.1 == name with
  | [] => .ok none
  | [entry] => .ok (some entry.2)
  | _ => .error (.duplicateField name)

def required (name : String) (decode : Decoder α) (entries : List (String × Value)) :
    Except Error α :=
  match field entries name with
  | .error e => .error e
  | .ok none => .error (.missingField name)
  | .ok (some v) => decode v

/-- An optional field that is absent is nothing. -/
def optional (name : String) (decode : Decoder α) (entries : List (String × Value)) :
    Except Error (Option α) :=
  match field entries name with
  | .error e => .error e
  | .ok none => .ok none
  | .ok (some v) => option decode v

/-- Refuse fields that are not among `names`. -/
def onlyFields (names : List String) (entries : List (String × Value)) : Except Error Unit :=
  match entries.find? fun entry => !names.contains entry.1 with
  | some entry => .error (.unknownField entry.1)
  | none => .ok ()

/-- The name and the content of a variant, as a format reads it directly: the first entry of a map,
whatever comes after it. -/
def variant : Decoder (String × Value)
  | .map ((name, content) :: _) => .ok (name, content)
  | _ => .error .invalidType

/-- The name and the content of a variant, as a buffered one is read: the one entry of a map. -/
def onlyVariant : Decoder (String × Value)
  | .map [(name, content)] => .ok (name, content)
  | _ => .error .invalidType

/-- A sequence of exactly two items, as a buffered tuple variant is read. -/
def tuple₂ (first : Decoder α) (second : Decoder β) : Decoder (α × β)
  | .seq [a, b] => do return (← first a, ← second b)
  | .seq _ => .error .invalidLength
  | _ => .error .invalidType

/-- The first two items of a sequence, as a tuple variant is read from a format directly. -/
def leading₂ (first : Decoder α) (second : Decoder β) : Decoder (α × β)
  | .seq (a :: b :: _) => do return (← first a, ← second b)
  | .seq _ => .error .invalidLength
  | _ => .error .invalidType

/-- An untagged choice: the first variant that decodes. -/
def firstOf (first second : Decoder α) : Decoder α := fun v =>
  match first v with
  | .ok a => .ok a
  | .error _ =>
      match second v with
      | .ok a => .ok a
      | .error _ => .error .noMatchingVariant

/-! ## Decoding what was encoded -/

@[simp]
theorem ok_bind {γ : Type u} (a : α) (f : α → Except Error γ) : (Except.ok a >>= f) = f a := rfl

@[simp]
theorem ok_map {γ : Type u} (f : α → γ) (a : α) : f <$> (Except.ok a : Except Error α) = .ok (f a) :=
  rfl

theorem exists_of_map_eq_ok {f : α → β} {x : Except Error α} {b : β} (h : x.map f = .ok b) :
    ∃ a, x = .ok a ∧ f a = b := by
  cases x with
  | error e => cases h
  | ok a => exact ⟨a, rfl, Except.ok.inj h⟩

@[simp]
theorem string_str (s : String) : string (.str s) = .ok s := rfl

theorem unsigned_uint {bound n : Nat} (h : n < bound) : unsigned bound (.uint n) = .ok n :=
  if_pos h

@[simp]
theorem u64_uint (n : UInt64) : u64 (.uint n.toNat) = .ok n := by
  unfold u64
  rw [unsigned_uint n.toNat_lt]
  show Except.ok (UInt64.ofNat n.toNat) = _
  rw [UInt64.ofNat_toNat]

/-- An optional value decodes if its encoding is never the unit. -/
theorem option_option {encode : α → Value} {decode : Decoder α}
    (hdecode : ∀ a, decode (encode a) = .ok a) (hunit : ∀ a, encode a ≠ .unit) (x : Option α) :
    option decode (Value.option encode x) = .ok x := by
  cases x with
  | none => rfl
  | some a =>
      show option decode (encode a) = _
      unfold option
      split
      · next h => exact absurd h (hunit a)
      · rw [hdecode a]
        rfl

theorem vec_seq {encode : α → Value} {decode : Decoder α}
    (hdecode : ∀ a, decode (encode a) = .ok a) (items : List α) :
    vec decode (.seq (items.map encode)) = .ok items := by
  show (items.map encode).mapM decode = _
  induction items with
  | nil => rfl
  | cons a rest ih =>
      rw [List.map_cons, List.mapM_cons, hdecode a, ih]
      rfl

/-- The order of the entries does not matter to a field. -/
theorem field_perm {entries entries' : List (String × Value)} (h : entries.Perm entries')
    (name : String) : field entries name = field entries' name := by
  have hperm : (entries.filter fun entry => entry.1 == name).Perm
      (entries'.filter fun entry => entry.1 == name) := h.filter _
  unfold field
  generalize entries.filter (fun entry => entry.1 == name) = found at hperm ⊢
  generalize entries'.filter (fun entry => entry.1 == name) = found' at hperm ⊢
  match found, found' with
  | [], found' => rw [hperm.nil_eq]
  | [entry], found' => rw [List.singleton_perm.mp hperm]
  | a :: b :: rest, [] => exact absurd hperm.length_eq (by simp)
  | a :: b :: rest, [entry] => exact absurd hperm.length_eq (by simp)
  | a :: b :: rest, a' :: b' :: rest' => rfl

theorem field_cons_self {name : String} {rest : List (String × Value)}
    (h : ∀ entry ∈ rest, entry.1 ≠ name) (v : Value) :
    field ((name, v) :: rest) name = .ok (some v) := by
  have hrest : rest.filter (fun entry => entry.1 == name) = [] := by
    apply List.filter_eq_nil_iff.mpr
    intro entry hentry
    simpa using h entry hentry
  unfold field
  rw [List.filter_cons_of_pos (by simp), hrest]

theorem field_cons_ne {key name : String} (h : key ≠ name) (v : Value)
    (rest : List (String × Value)) : field ((key, v) :: rest) name = field rest name := by
  unfold field
  rw [List.filter_cons_of_neg (by simpa using h)]

@[simp]
theorem field_sortByKey (entries : List (String × Value)) (name : String) :
    field (sortByKey entries) name = field entries name :=
  field_perm (List.perm_insertionSort _ _) name

@[simp]
theorem required_sortByKey (name : String) (decode : Decoder α)
    (entries : List (String × Value)) :
    required name decode (sortByKey entries) = required name decode entries := by
  unfold required
  rw [field_sortByKey]

@[simp]
theorem required_cons_self {name : String} {rest : List (String × Value)}
    (h : ∀ entry ∈ rest, entry.1 ≠ name) (decode : Decoder α) (v : Value) :
    required name decode ((name, v) :: rest) = decode v := by
  unfold required
  rw [field_cons_self h]

@[simp]
theorem required_cons_ne {key name : String} (h : key ≠ name) (decode : Decoder α) (v : Value)
    (rest : List (String × Value)) :
    required name decode ((key, v) :: rest) = required name decode rest := by
  unfold required
  rw [field_cons_ne h]

@[simp]
theorem optional_cons_self {name : String} {rest : List (String × Value)}
    (h : ∀ entry ∈ rest, entry.1 ≠ name) (decode : Decoder α) (v : Value) :
    optional name decode ((name, v) :: rest) = option decode v := by
  unfold optional
  rw [field_cons_self h]

@[simp]
theorem optional_cons_ne {key name : String} (h : key ≠ name) (decode : Decoder α) (v : Value)
    (rest : List (String × Value)) :
    optional name decode ((key, v) :: rest) = optional name decode rest := by
  unfold optional
  rw [field_cons_ne h]

@[simp]
theorem optional_sortByKey (name : String) (decode : Decoder α)
    (entries : List (String × Value)) :
    optional name decode (sortByKey entries) = optional name decode entries := by
  unfold optional
  rw [field_sortByKey]

@[simp]
theorem fields_object (names : List String) (entries : List (String × Value)) :
    fields names (.object entries) = .ok (sortByKey entries) :=
  rfl

/-- Entries whose names are all known stay known in any order. -/
theorem onlyFields_sortByKey {names : List String} {entries : List (String × Value)}
    (h : ∀ entry ∈ entries, entry.1 ∈ names) : onlyFields names (sortByKey entries) = .ok () := by
  have hnone : (sortByKey entries).find? (fun entry => !names.contains entry.1) = none := by
    apply List.find?_eq_none.mpr
    intro entry hentry
    have hmem : entry ∈ entries := (List.perm_insertionSort _ _).mem_iff.mp hentry
    simpa using h entry hmem
  unfold onlyFields
  rw [hnone]

@[simp]
theorem variant_variant (name : String) (content : Value) :
    variant (.variant name content) = .ok (name, content) :=
  rfl

@[simp]
theorem onlyVariant_variant (name : String) (content : Value) :
    onlyVariant (.variant name content) = .ok (name, content) :=
  rfl

theorem firstOf_first {first second : Decoder α} {v : Value} {a : α} (h : first v = .ok a) :
    firstOf first second v = .ok a := by
  unfold firstOf
  rw [h]

/-- A later variant is reached only where the earlier one refuses. -/
theorem firstOf_second {first second : Decoder α} {v : Value} {a : α} {e : Error}
    (hrefused : first v = .error e) (h : second v = .ok a) : firstOf first second v = .ok a := by
  unfold firstOf
  rw [hrefused]
  show (match second v with | .ok a => _ | .error _ => _) = _
  rw [h]

/-! ## Well-formed values -/

namespace Value

/-- What a format can carry: numbers of 64 bits, and maps sorted by key with no key twice. -/
inductive WellFormed : Value → Prop
  | unit : WellFormed .unit
  | uint {n : Nat} (h : n < 2 ^ 64) : WellFormed (.uint n)
  | str (s : String) : WellFormed (.str s)
  | seq {items : List Value} (h : ∀ v ∈ items, WellFormed v) : WellFormed (.seq items)
  | map {entries : List (String × Value)} (hkeys : entries.Pairwise fun a b => a.1 < b.1)
      (h : ∀ entry ∈ entries, WellFormed entry.2) : WellFormed (.map entries)

attribute [simp] WellFormed.unit WellFormed.str

@[simp]
theorem wellFormed_uint_toNat (n : UInt64) : WellFormed (.uint n.toNat) := .uint n.toNat_lt

end Value

/-- Distinct keys are strictly increasing once they are sorted. -/
theorem pairwise_sortByKey {entries : List (String × Value)}
    (h : (entries.map Prod.fst).Nodup) : (sortByKey entries).Pairwise fun a b => a.1 < b.1 := by
  have hsorted : (sortByKey entries).Pairwise fun a b => a.1 ≤ b.1 :=
    List.pairwise_insertionSort (fun a b : String × Value => a.1 ≤ b.1) entries
  have hdistinct : (sortByKey entries).Pairwise fun a b => a.1 ≠ b.1 := by
    have hnodup : ((sortByKey entries).map Prod.fst).Nodup :=
      ((List.perm_insertionSort _ entries).map Prod.fst).nodup_iff.mpr h
    exact List.pairwise_map.mp hnodup
  exact hsorted.imp₂ (fun _ _ hle hne => lt_of_le_of_ne hle hne) hdistinct

namespace Value

theorem WellFormed.object {entries : List (String × Value)} (hkeys : (entries.map Prod.fst).Nodup)
    (h : ∀ entry ∈ entries, entry.2.WellFormed) : (Value.object entries).WellFormed := by
  refine .map (pairwise_sortByKey hkeys) ?_
  intro entry hentry
  exact h entry ((List.perm_insertionSort _ entries).mem_iff.mp hentry)

theorem WellFormed.variant (name : String) {content : Value} (h : content.WellFormed) :
    (Value.variant name content).WellFormed :=
  .map (List.pairwise_singleton _ _) (by simpa using h)

theorem WellFormed.option {encode : α → Value} (h : ∀ a, (encode a).WellFormed) (x : Option α) :
    (Value.option encode x).WellFormed := by
  cases x with
  | none => exact .unit
  | some a => exact h a

end Value

/-! ## Formats -/

/-- A format that carries well-formed values faithfully in buffers of type `B`. -/
structure Format (B : Type u) where
  serialize : Value → B
  deserialize : B → Except Error Value
  deserialize_serialize : ∀ v, v.WellFormed → deserialize (serialize v) = .ok v

/-- Values themselves are buffers. -/
def Format.values : Format Value := ⟨id, .ok, fun _ _ => rfl⟩

end FrostFederation.Lib.Serde
