/-
# FrostFederation.Node.Conversation — unicast conversations come to an end.

Unicast messages are in flight between nodes.  A delivery hands one of them to its target, whose
`respond_to_unicast_message` puts at most the reply of `Protocol::call` back in flight.  What the
target's membership is, what its clock shows and whether the reply gets through may differ from one
delivery to the next, and the messages may hold any text.

Every service answers with a message of lower RANK than the one it was given (`rank_reply_lt`), and a
rank is at most two.  For the heartbeat this rests on the id of the replying node, which is never
empty: it is a bind address (`Settings.getNodeId_fromConfig`), and holds a colon.
-/
import FrostFederation.Lib.Run
import FrostFederation.Node.Builder
import Mathlib.Algebra.Ring.Nat
import Mathlib.Data.List.Perm.Basic

namespace FrostFederation.Node

open FrostFederation.Lib
open FrostFederation.Protocol

/-! ## Replies -/

theorem getBindAddress_ne_empty (networkConfig : NetworkConfig) :
    getBindAddress networkConfig ≠ "" := by
  unfold getBindAddress
  rw [Ne, String.append_eq_empty_iff]
  exact fun h => String.push_ne_empty h.1

/-- What `respond_to_unicast_message` sends back. -/
def reply (calculateHash : String → MessageId) (nodeId : String) (state : State) (nanos : Nat)
    (message : Unicast) : Option Unicast :=
  match call calculateHash nodeId state nanos (.unicastMessage message) with
  | .ok (some (.unicastMessage answer)) => some answer
  | _ => none

/-- How many further messages a message can cause. -/
def rank : Unicast → Nat
  | .handshake m => if m.message = "oleh" then 0 else if m.message = "helo" then 1 else 2
  | .heartbeat m => if m.senderId = "" then 1 else 0
  | .ping m => if m.message = "" then 2 else if m.message = "ping" then 1 else 0
  | .membership m => if m.message = none then 1 else 0

theorem rank_le_two (message : Unicast) : rank message ≤ 2 := by
  cases message <;> simp only [rank] <;> split_ifs <;> omega

section Reply

variable {calculateHash : String → MessageId} {nodeId : String} {state : State} {nanos : Nat}
  {message answer : Unicast}

/-- **A reply has a lower rank than what it replies to.** -/
theorem rank_reply_lt (hnode : nodeId ≠ "")
    (h : reply calculateHash nodeId state nanos message = some answer) :
    rank answer < rank message := by
  cases message with
  | handshake m =>
      simp only [reply, call, Handshake.call] at h
      split_ifs at h with hhelo holeh
      · obtain rfl : _ = answer := Option.some.inj h
        simp [rank, hhelo]
      · obtain rfl : _ = answer := Option.some.inj h
        simp [rank, hhelo, holeh]
  | heartbeat m =>
      simp only [reply, call, Heartbeat.call] at h
      split_ifs at h with hempty
      · obtain rfl : _ = answer := Option.some.inj h
        simp [rank, hempty, hnode]
  | ping m =>
      simp only [reply, call, Ping.call] at h
      split_ifs at h with hempty hping
      · obtain rfl : _ = answer := Option.some.inj h
        simp [rank, hempty]
      · obtain rfl : _ = answer := Option.some.inj h
        simp [rank, hping]
  | membership m =>
      simp only [reply, call, Membership.call] at h
      cases hm : m.message with
      | none =>
          rw [hm] at h
          obtain rfl : _ = answer := Option.some.inj h
          simp [rank, hm]
      | some members =>
          rw [hm] at h
          cases h

end Reply

/-! ## Messages in flight -/

/-- A message in flight, with the number of the initial message it goes back to. -/
structure Packet (ι : Type) where
  source : ι
  target : ι
  message : Unicast
  origin : Nat
  deriving DecidableEq

namespace Conversation

/-- Which packet is delivered, what its target reads besides the message, and whether the reply gets
through. -/
structure Input where
  position : Nat
  state : State
  nanos : Nat
  sent : Bool

structure Event (ι : Type) where
  delivered : Packet ι
  answer : Option (Packet ι)
  deriving DecidableEq

variable {ι : Type} (calculateHash : String → MessageId) (config : ι → NetworkConfig)

/-- What the delivery of a packet puts back in flight. -/
def answer (packet : Packet ι) (i : Input) : Option (Packet ι) :=
  if i.sent then
    (reply calculateHash (getBindAddress (config packet.target)) i.state i.nanos packet.message).map
      fun message => ⟨packet.target, packet.source, message, packet.origin⟩
  else none

def step (packets : List (Packet ι)) (i : Input) : Option (List (Packet ι) × Event ι) :=
  packets[i.position]?.map fun packet =>
    (packets.eraseIdx i.position ++ (answer calculateHash config packet i).toList,
      ⟨packet, answer calculateHash config packet i⟩)

def machine : Machine (List (Packet ι)) Input (Event ι) := ⟨step calculateHash config⟩

/-- The initial messages, numbered. -/
def start (messages : List (ι × ι × Unicast)) : List (Packet ι) :=
  messages.zipIdx.map fun m => ⟨m.1.1, m.1.2.1, m.1.2.2, m.2⟩

/-! ## Potentials -/

variable {calculateHash config} {packets packets' : List (Packet ι)} {i : Input} {e : Event ι}

/-- The sum of a weight over the packets in flight. -/
def potential (weight : Packet ι → Nat) (packets : List (Packet ι)) : Nat := (packets.map weight).sum

@[simp]
theorem potential_none (weight : Packet ι → Nat) :
    potential weight (none : Option (Packet ι)).toList = 0 := rfl

@[simp]
theorem potential_some (weight : Packet ι → Nat) (packet : Packet ι) :
    potential weight (some packet).toList = weight packet := by
  simp [potential]

theorem potential_append (weight : Packet ι → Nat) (packets packets' : List (Packet ι)) :
    potential weight (packets ++ packets') = potential weight packets + potential weight packets' := by
  simp [potential]

/-- What a delivery does: the packet is gone, and in its place is at most an answer of the same origin
and a lower rank. -/
theorem delivered_of_step
    (hs : (machine calculateHash config).step packets i = some (packets', e)) :
    ∃ rest, packets.Perm (e.delivered :: rest) ∧ packets' = rest ++ e.answer.toList ∧
      ∀ packet, e.answer = some packet →
        packet.origin = e.delivered.origin ∧ rank packet.message < rank e.delivered.message := by
  obtain ⟨packet, hget, heq⟩ := Option.map_eq_some_iff.mp hs
  obtain ⟨rfl, rfl⟩ := Prod.mk.inj heq
  obtain ⟨hlt, rfl⟩ := List.getElem?_eq_some_iff.mp hget
  refine ⟨_, (List.getElem_cons_eraseIdx_perm hlt).symm, rfl, ?_⟩
  intro q hq
  simp only [answer] at hq
  split_ifs at hq
  obtain ⟨message, hreply, rfl⟩ := Option.map_eq_some_iff.mp hq
  exact ⟨rfl, rank_reply_lt (getBindAddress_ne_empty _) hreply⟩

/-- A delivery trades the weight of the packet for that of its answer. -/
theorem potential_step (weight : Packet ι → Nat)
    (hs : (machine calculateHash config).step packets i = some (packets', e)) :
    potential weight packets + potential weight e.answer.toList =
      potential weight packets' + weight e.delivered := by
  obtain ⟨rest, hperm, rfl, -⟩ := delivered_of_step hs
  have hsum : potential weight packets = weight e.delivered + potential weight rest := by
    unfold potential
    rw [(hperm.map weight).sum_nat]
    rfl
  rw [potential_append]
  omega

/-- A packet weighs as many deliveries as it can still lead to. -/
def deliveries (packet : Packet ι) : Nat := rank packet.message + 1

/-- In the conversation of one initial message a packet weighs as many messages as it can cause. -/
def causes (n : Nat) (packet : Packet ι) : Nat := if packet.origin = n then rank packet.message else 0

/-- The delivery of a packet of this conversation puts an answer in flight. -/
def answered (n : Nat) (e : Event ι) : Bool := e.delivered.origin = n && e.answer.isSome

theorem deliveries_step (hs : (machine calculateHash config).step packets i = some (packets', e)) :
    potential deliveries packets' < potential deliveries packets := by
  have htrade := potential_step deliveries hs
  obtain ⟨-, -, -, hanswer⟩ := delivered_of_step hs
  have hdelivered : deliveries e.delivered = rank e.delivered.message + 1 := rfl
  cases hcase : e.answer with
  | none =>
      rw [hcase, potential_none] at htrade
      omega
  | some packet =>
      have hlower := (hanswer packet hcase).2
      rw [hcase, potential_some] at htrade
      have hpacket : deliveries packet = rank packet.message + 1 := rfl
      omega

theorem causes_step (n : Nat)
    (hs : (machine calculateHash config).step packets i = some (packets', e)) :
    (if answered n e then 1 else 0) + potential (causes n) packets' ≤
      potential (causes n) packets := by
  have htrade := potential_step (causes n) hs
  obtain ⟨-, -, -, hanswer⟩ := delivered_of_step hs
  cases hcase : e.answer with
  | none =>
      rw [hcase, potential_none] at htrade
      simp only [answered, hcase, Option.isSome_none, Bool.and_false, Bool.false_eq_true, if_false]
      omega
  | some packet =>
      obtain ⟨horigin, hlower⟩ := hanswer packet hcase
      rw [hcase, potential_some] at htrade
      simp only [causes, horigin] at htrade
      simp only [answered, hcase, Option.isSome_some, Bool.and_true, decide_eq_true_eq]
      split_ifs at htrade ⊢ <;> omega

/-! ## The initial messages -/

theorem start_snoc (messages : List (ι × ι × Unicast)) (m : ι × ι × Unicast) :
    start (messages ++ [m]) = start messages ++ (some ⟨m.1, m.2.1, m.2.2, messages.length⟩).toList := by
  simp [start, List.zipIdx_append]

theorem potential_deliveries_start (messages : List (ι × ι × Unicast)) :
    potential deliveries (start messages) ≤ 3 * messages.length := by
  induction messages using List.reverseRecOn with
  | nil => exact le_rfl
  | append_singleton messages m ih =>
      have hrank := rank_le_two m.2.2
      rw [start_snoc, potential_append, potential_some, List.length_append, List.length_singleton]
      show potential deliveries (start messages) + (rank m.2.2 + 1) ≤ 3 * (messages.length + 1)
      omega

/-- Only one initial message has a given number. -/
theorem potential_causes_start (messages : List (ι × ι × Unicast)) (n : Nat) :
    potential (causes n) (start messages) ≤ if n < messages.length then 2 else 0 := by
  induction messages using List.reverseRecOn with
  | nil => exact Nat.zero_le _
  | append_singleton messages m ih =>
      have hrank := rank_le_two m.2.2
      rw [start_snoc, potential_append, potential_some, List.length_append, List.length_singleton]
      show potential (causes n) (start messages) +
        (if messages.length = n then rank m.2.2 else 0) ≤ if n < messages.length + 1 then 2 else 0
      split_ifs at ih ⊢ <;> omega

/-- **Unicast conversations always end.**  There are at most three deliveries for each initial
message, each initial message causes at most two further ones, and there is no infinite sequence of
deliveries. -/
theorem conversations_end (messages : List (ι × ι × Unicast)) :
    (∀ tr packets, (machine calculateHash config).Run (start messages) tr packets →
      tr.length ≤ 3 * messages.length ∧ ∀ n, tr.countP (answered n) ≤ 2) ∧
    ¬∃ f : ℕ → List (Packet ι), ∀ k, ∃ i e,
      (machine calculateHash config).step (f k) i = some (f (k + 1), e) := by
  refine ⟨fun tr packets hrun => ⟨?_, fun n => ?_⟩, ?_⟩
  · have hcount := hrun.countP_add_le (p := fun _ => true) (m := potential deliveries)
      fun hs => by
        have hlt := deliveries_step hs
        simp only [if_true]
        omega
    have hstart := potential_deliveries_start messages
    rw [List.countP_true] at hcount
    omega
  · have hcount := hrun.countP_add_le (causes_step n)
    have hstart := potential_causes_start messages n
    split_ifs at hstart <;> omega
  · rintro ⟨f, hsteps⟩
    exact Machine.not_forall_step deliveries_step f hsteps

-- An empty ping causes two further messages.
example :
    ((machine hashLength fun _ : Bool => {}).exec
      (start [(false, true, .ping ⟨"", ""⟩)])
      (List.replicate 3 ⟨0, ⟨[], ⟨"localhost"⟩⟩, 0, true⟩)).map (fun r => r.2.countP (answered 0)) =
      some 2 := by
  decide

end Conversation

end FrostFederation.Node
