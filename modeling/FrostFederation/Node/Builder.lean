/-
# FrostFederation.Node.Builder — how a node is built, and the message ids it generates.

`main` builds a node with `Node::new` and one builder call per setting.  The message id generator is
made inside `Node::new`, with the DEFAULT bind address, and no builder call touches it again: the
generator of every node hashes its clock reading followed by `localhost`, whatever address the node
is bound to (`messageIdGenerator_build`).  So the ids of a federation are told apart by time alone.
With the address of the node in its place the string would do better: nineteen digits, the bind
string, and a port behind the last colon can be read off it again (`getBindAddress_inj`).
-/
import FrostFederation.Node.Model
import Mathlib.Algebra.Group.Nat.Defs
import Mathlib.Data.List.Induction
import Mathlib.Data.Set.Function

namespace FrostFederation.Node

open FrostFederation.Protocol

/-! ## Configuration -/

/-- The network section of the configuration. -/
structure NetworkConfig where
  bind : String := "localhost"
  port : Nat := 6680

/-- What `main` reads of the configuration. -/
structure Config where
  network : NetworkConfig := {}
  seeds : List String := []
  deliveryTimeout : Nat := 500
  key : String := ""

def getBindAddress (networkConfig : NetworkConfig) : String :=
  networkConfig.bind.push ':' ++ toString networkConfig.port

/-! ## The builder -/

/-- What the builder calls set, and the generator in the node's `State`. -/
structure Settings where
  seeds : List String
  bindAddress : String
  staticKeyPem : String
  deliveryTimeout : Nat
  messageIdGenerator : MessageIdGenerator

inductive BuilderCall where
  | seeds (seeds : List String)
  | bindAddress (address : String)
  | staticKeyPem (key : String)
  | deliveryTimeout (timeout : Nat)

namespace Settings

/-- `Node::new`. -/
def new : Settings where
  seeds := ["localhost:6680"]
  bindAddress := "localhost"
  staticKeyPem := ""
  deliveryTimeout := 500
  messageIdGenerator := ⟨"localhost"⟩

def apply (node : Settings) : BuilderCall → Settings
  | .seeds seeds => { node with seeds := seeds }
  | .bindAddress address => { node with bindAddress := address }
  | .staticKeyPem key => { node with staticKeyPem := key }
  | .deliveryTimeout timeout => { node with deliveryTimeout := timeout }

/-- `Node::new` followed by a sequence of builder calls. -/
def build (calls : List BuilderCall) : Settings := calls.foldl apply new

/-- The node that `main` builds. -/
def fromConfig (config : Config) : Settings :=
  build [.seeds config.seeds, .bindAddress (getBindAddress config.network), .staticKeyPem config.key,
    .deliveryTimeout config.deliveryTimeout]

/-- The node as it is started: nothing has happened to it yet. -/
def node {E : Type} (settings : Settings) : Node E :=
  { Node.new with
    bindAddress := settings.bindAddress, messageIdGenerator := settings.messageIdGenerator }

/-- **No builder call reaches the generator.** -/
theorem messageIdGenerator_build (calls : List BuilderCall) :
    (build calls).messageIdGenerator = ⟨"localhost"⟩ := by
  induction calls using List.reverseRecOn with
  | nil => rfl
  | append_singleton calls call ih =>
      have hsnoc : build (calls ++ [call]) = (build calls).apply call := by
        simp [build]
      rw [hsnoc]
      cases call <;> exact ih

/-- The nodes of a federation are the ones that builder calls make. -/
theorem node_build {E : Type} (calls : List BuilderCall) :
    (build calls).node = (Node.new : Node E).withBindAddress (build calls).bindAddress := by
  unfold node
  rw [messageIdGenerator_build]
  rfl

/-- The id of the node that `main` builds. -/
theorem getNodeId_fromConfig {E : Type} (config : Config) :
    ((fromConfig config).node : Node E).getNodeId = getBindAddress config.network := rfl

/-! ## Message ids -/

/-- The string that `MessageIdGenerator::next` hashes. -/
def timeAndId (node : Settings) (nanos : Nat) : String :=
  toString nanos ++ node.messageIdGenerator.nodeId

/-- `MessageIdGenerator::next` on the generator of a node, or on any clone of it. -/
def nextId (calculateHash : String → MessageId) (node : Settings) (nanos : Nat) : MessageId :=
  node.messageIdGenerator.next calculateHash nanos

variable {ι : Type} {nodes : ι → List BuilderCall} {calculateHash : String → MessageId}
  {readings : List (ι × Nat)}

/-- A number can be read off its decimal digits. -/
theorem repr_inj {t t' : Nat} (h : Nat.repr t = Nat.repr t') : t = t' := by
  have hdigits : Nat.toDigits 10 t = Nat.toDigits 10 t' := by
    rw [← Nat.toList_repr, ← Nat.toList_repr, h]
  rw [← Nat.ofDigitChars_ten_toDigits (n := t), hdigits, Nat.ofDigitChars_ten_toDigits]

/-- Two nodes hash the same string exactly when they read the same time. -/
theorem timeAndId_build_inj {calls calls' : List BuilderCall} {t t' : Nat} :
    (build calls).timeAndId t = (build calls').timeAndId t' ↔ t = t' := by
  unfold timeAndId
  rw [messageIdGenerator_build, messageIdGenerator_build, String.append_left_inj]
  exact ⟨repr_inj, congrArg toString⟩

/-- **The ids of a federation are pairwise distinct exactly when no two nodes read the same time.** -/
theorem nodup_ids_iff
    (hincreasing : readings.Pairwise fun a b => a.1 = b.1 → a.2 < b.2)
    (hinjective : Set.InjOn calculateHash
      {text | ∃ r ∈ readings, text = (build (nodes r.1)).timeAndId r.2}) :
    (readings.map fun r => (build (nodes r.1)).nextId calculateHash r.2).Nodup ↔
      readings.Pairwise fun a b => a.1 ≠ b.1 → a.2 ≠ b.2 := by
  have hdiffer : (readings.map fun r => (build (nodes r.1)).nextId calculateHash r.2).Nodup ↔
      readings.Pairwise fun a b => a.2 ≠ b.2 := by
    unfold List.Nodup
    rw [List.pairwise_map]
    apply List.Pairwise.iff_of_mem
    intro a b ha hb
    refine not_congr ?_
    show calculateHash ((build (nodes a.1)).timeAndId a.2) =
      calculateHash ((build (nodes b.1)).timeAndId b.2) ↔ a.2 = b.2
    rw [hinjective.eq_iff ⟨a, ha, rfl⟩ ⟨b, hb, rfl⟩]
    exact timeAndId_build_inj
  rw [hdiffer]
  constructor
  · intro h
    refine h.imp ?_
    intro a b hne _
    exact hne
  · intro h
    refine (hincreasing.and h).imp ?_
    rintro a b ⟨hsame, hother⟩
    by_cases heq : a.1 = b.1
    · exact (hsame heq).ne
    · exact hother heq

/-- Two nodes on the ports 6680 and 6681 of one host. -/
def twoPorts (second : Bool) : List BuilderCall :=
  [.bindAddress (getBindAddress { port := if second then 6681 else 6680 })]

/-- The two nodes read their clocks in the same nanosecond. -/
def sameNanosecond : List (Bool × Nat) :=
  [(false, 1700000000000000000), (true, 1700000000000000000)]

theorem not_nodup_ids_sameNanosecond :
    (build (twoPorts false)).bindAddress ≠ (build (twoPorts true)).bindAddress ∧
      (sameNanosecond.Pairwise fun a b => a.1 = b.1 → a.2 < b.2) ∧
      (∀ r ∈ sameNanosecond, 10 ^ 18 ≤ r.2 ∧ r.2 < 10 ^ 19) ∧
      Set.InjOn hashLength {text | ∃ r ∈ sameNanosecond, text = (build (twoPorts r.1)).timeAndId r.2} ∧
      ¬(sameNanosecond.map fun r => (build (twoPorts r.1)).nextId hashLength r.2).Nodup := by
  refine ⟨by decide, by decide, by decide, ?_, ?_⟩
  · -- the two nodes hash one and the same string
    rintro _ ⟨r, hr, rfl⟩ _ ⟨r', hr', rfl⟩ -
    apply timeAndId_build_inj.mpr
    simp only [sameNanosecond, List.mem_cons, List.not_mem_nil, or_false] at hr hr'
    rcases hr with rfl | rfl <;> rcases hr' with rfl | rfl <;> rfl
  · simp [sameNanosecond, nextId, messageIdGenerator_build]

/-- The two nodes read their clocks one nanosecond apart. -/
def nextNanosecond : List (Bool × Nat) :=
  [(false, 1700000000000000000), (true, 1700000000000000001)]

/-- A hash that tells two strings apart. -/
def hashTwo (text : String) : MessageId :=
  if text = "1700000000000000000localhost" then ⟨0⟩ else ⟨1⟩

theorem nodup_ids_iff_nextNanosecond :
    (nextNanosecond.map fun r => (build (twoPorts r.1)).nextId hashTwo r.2).Nodup ↔
      nextNanosecond.Pairwise fun a b => a.1 ≠ b.1 → a.2 ≠ b.2 := by
  refine nodup_ids_iff (by decide) ?_
  rintro _ ⟨r, hr, rfl⟩ _ ⟨r', hr', rfl⟩ heq
  apply timeAndId_build_inj.mpr
  simp only [nextNanosecond, List.mem_cons, List.not_mem_nil, or_false] at hr hr'
  rcases hr with rfl | rfl <;> rcases hr' with rfl | rfl
  · rfl
  · exact absurd heq (by decide)
  · exact absurd heq (by decide)
  · rfl

/-! ## The string behind an id -/

/-- The text after the last separator, and so the text before it, can be read off. -/
theorem append_cons_inj_of_last {α : Type} {l l' r r' : List α} {sep : α} (hr : sep ∉ r)
    (hr' : sep ∉ r') (h : l ++ sep :: r = l' ++ sep :: r') : l = l' ∧ r = r' := by
  -- if one left part were longer, the separator after the other would stand in a right part
  rcases List.append_eq_append_iff.mp h with ⟨as, rfl, heq⟩ | ⟨as, rfl, heq⟩
  · cases as with
    | nil => exact ⟨(List.append_nil l).symm, List.tail_eq_of_cons_eq heq⟩
    | cons a as =>
        rw [List.tail_eq_of_cons_eq heq] at hr
        exact absurd (by simp) hr
  · cases as with
    | nil => exact ⟨List.append_nil l', (List.tail_eq_of_cons_eq heq).symm⟩
    | cons a as =>
        rw [List.tail_eq_of_cons_eq heq] at hr'
        exact absurd (by simp) hr'

/-- A bind address determines the bind string and the port, whatever the bind string is: the port
has no colon in it. -/
theorem getBindAddress_inj {c c' : NetworkConfig} (h : getBindAddress c = getBindAddress c') :
    c.bind = c'.bind ∧ c.port = c'.port := by
  have hport : ∀ port : Nat, ':' ∉ (Nat.repr port).toList := by
    intro port hmem
    rw [Nat.toList_repr] at hmem
    exact absurd (Nat.isDigit_of_mem_toDigits (by decide) (by decide) hmem) (by decide)
  have hlist : c.bind.toList ++ ':' :: (Nat.repr c.port).toList =
      c'.bind.toList ++ ':' :: (Nat.repr c'.port).toList := by
    simpa [getBindAddress, Nat.toString_eq_repr] using congrArg String.toList h
  obtain ⟨hbind, hdigits⟩ := append_cons_inj_of_last (hport _) (hport _) hlist
  exact ⟨String.toList_inj.mp hbind, repr_inj (String.toList_inj.mp hdigits)⟩

/-- A clock reading of this era has nineteen digits. -/
theorem length_repr_of_era {t : Nat} (ht : 10 ^ 18 ≤ t ∧ t < 10 ^ 19) :
    (Nat.repr t).length = 19 := by
  have hle : (Nat.repr t).length ≤ 19 := (Nat.length_repr_le_iff (by decide)).mpr ht.2
  have hgt : ¬(Nat.repr t).length ≤ 18 := by
    rw [Nat.length_repr_le_iff (by decide)]
    omega
  omega

/-- **The string that is hashed determines time and node**, if the generators are made with the bind
addresses of their nodes. -/
theorem timeAndId_inj {node node' : Settings} {c c' : NetworkConfig} {t t' : Nat}
    (hid : node.messageIdGenerator = ⟨getBindAddress c⟩)
    (hid' : node'.messageIdGenerator = ⟨getBindAddress c'⟩) (ht : 10 ^ 18 ≤ t ∧ t < 10 ^ 19)
    (ht' : 10 ^ 18 ≤ t' ∧ t' < 10 ^ 19) (h : node.timeAndId t = node'.timeAndId t') :
    t = t' ∧ c.bind = c'.bind ∧ c.port = c'.port := by
  have hlist : (Nat.repr t).toList ++ (getBindAddress c).toList =
      (Nat.repr t').toList ++ (getBindAddress c').toList := by
    simpa [timeAndId, hid, hid', Nat.toString_eq_repr] using congrArg String.toList h
  have hlength : (Nat.repr t).toList.length = (Nat.repr t').toList.length := by
    rw [String.length_toList, String.length_toList, length_repr_of_era ht, length_repr_of_era ht']
  obtain ⟨htime, haddress⟩ := List.append_inj hlist hlength
  exact ⟨repr_inj (String.toList_inj.mp htime),
    getBindAddress_inj (String.toList_inj.mp haddress)⟩

/-- A node whose generator is made with its address: the bind string starts with a digit and has
colons of its own. -/
def loopback : Settings := { new with messageIdGenerator := ⟨getBindAddress ⟨"0:0::1", 6680⟩⟩ }

theorem timeAndId_inj_loopback :
    loopback.timeAndId 1700000000000000000 = "17000000000000000000:0::1:6680" ∧
      (10 ^ 18 ≤ 1700000000000000000 ∧ 1700000000000000000 < 10 ^ 19) ∧
      1700000000000000000 = 1700000000000000000 ∧
      (⟨"0:0::1", 6680⟩ : NetworkConfig).bind = "0:0::1" ∧
      (⟨"0:0::1", 6680⟩ : NetworkConfig).port = 6680 := by
  have hid : loopback.messageIdGenerator = ⟨getBindAddress ⟨"0:0::1", 6680⟩⟩ := rfl
  exact ⟨by decide, by decide, timeAndId_inj hid hid (by decide) (by decide) rfl⟩

end Settings

end FrostFederation.Node
