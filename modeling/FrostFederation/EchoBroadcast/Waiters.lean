/-
# FrostFederation.EchoBroadcast.Waiters — the fate of every client that waits on a broadcast.

Every call of `EchoBroadcastHandle::send` leaves one oneshot sender with the task, and this file
accounts for all of them.  The conservation law (`ledger_of_run`) holds along EVERY run, panics
included: a sender is stored, or it was used exactly once, or it was dropped.  A live task drops a
sender in one place only, where a Send completes while another sender is stored under the same
message id (`drops_iff_overwrites`), and this decides when no waiter is lost.
-/
import FrostFederation.EchoBroadcast.Record

namespace FrostFederation.EchoBroadcast

open FrostFederation.Lib
open FrostFederation.Protocol

variable {H : Type}

/-! ## Tickets -/

/-- The answer an effect gives on `tx`. -/
def Effect.answer? (tx : Oneshot) : Effect H → Option ConnectionResult
  | .respond tx' result => if tx' = tx then some result else none
  | _ => none

/-- The answers an event gives on `tx`. -/
def Event.answers (e : Event H) (tx : Oneshot) : List ConnectionResult :=
  e.effects.filterMap (Effect.answer? tx)

/-- The event drops the sender half of `tx` unanswered. -/
def Event.Drops (e : Event H) (tx : Oneshot) : Prop := Effect.drop tx ∈ e.effects

namespace EchoTask

/-- The answers given on `tx` along a run. -/
def answers (tr : List (Event H)) (tx : Oneshot) : List ConnectionResult :=
  tr.flatMap fun e => e.answers tx

/-- The sender half of `tx` was dropped unanswered in one of these events. -/
def Dropped (tr : List (Event H)) (tx : Oneshot) : Prop := ∃ e ∈ tr, e.Drops tx

/-- The sender half of `tx` is in `message_client_txs`. -/
def Stored (t : EchoTask H) (tx : Oneshot) : Prop :=
  ∃ a m, t.actor = some a ∧ a.messageClientTxs.lookup m = some tx

theorem answers_snoc (tr : List (Event H)) (e : Event H) (tx : Oneshot) :
    answers (tr ++ [e]) tx = answers tr tx ++ e.answers tx := by
  simp [answers]

theorem answers_append (tr tr' : List (Event H)) (tx : Oneshot) :
    answers (tr ++ tr') tx = answers tr tx ++ answers tr' tx := by
  simp [answers]

/-- An `Ok` among the answers of an event is one of its effects. -/
theorem ok_mem_answers {e : Event H} {tx : Oneshot} :
    Except.ok () ∈ e.answers tx ↔ Effect.respond tx (.ok ()) ∈ e.effects := by
  rw [Event.answers, List.mem_filterMap]
  constructor
  · rintro ⟨effect, hmem, hanswer⟩
    cases effect with
    | respond tx' result =>
        simp only [Effect.answer?, Option.ite_none_right_eq_some, Option.some.injEq] at hanswer
        obtain ⟨rfl, rfl⟩ := hanswer
        exact hmem
    | reliableSend => cases hanswer
    | drop => cases hanswer
  · intro hmem
    exact ⟨_, hmem, by simp [Effect.answer?]⟩

theorem dropped_snoc {tr : List (Event H)} {e : Event H} {tx : Oneshot} :
    Dropped (tr ++ [e]) tx ↔ Dropped tr tx ∨ e.Drops tx := by
  simp [Dropped, or_and_right, exists_or]

theorem not_dropped_snoc {tr : List (Event H)} {e : Event H} {tx : Oneshot} (h : ¬ Dropped tr tx)
    (he : ¬ e.Drops tx) : ¬ Dropped (tr ++ [e]) tx := by
  rw [dropped_snoc]
  exact fun hor => hor.elim h he

/-- Stored senders were opened before, and each is stored under one id. -/
structure WaitersDistinct (t : EchoTask H) : Prop where
  opened : ∀ tx, Stored t tx → tx < t.opened
  unique : ∀ a m m' tx, t.actor = some a → a.messageClientTxs.lookup m = some tx →
    a.messageClientTxs.lookup m' = some tx → m = m'

/-! ## What the effects of one step are -/

section Steps

variable {t t' : EchoTask H} {c : Call H} {e : Event H} {a a' : EchoBroadcastActor H}

/-- Effects that only send answer nobody. -/
theorem answers_of_onlySends {data : Message} {members : ReliableSenderMap H}
    {sent : List (Effect H)} (h : OnlySends data members sent) (tx : Oneshot) :
    sent.filterMap (Effect.answer? tx) = [] := by
  rw [List.filterMap_eq_nil_iff]
  intro effect hmem
  obtain ⟨x, handle, ok, rfl, -⟩ := h effect hmem
  rfl

theorem drop_notMem_of_onlySends {data : Message} {members : ReliableSenderMap H}
    {sent : List (Effect H)} (h : OnlySends data members sent) (tx : Oneshot) :
    Effect.drop tx ∉ sent := by
  intro hmem
  obtain ⟨x, handle, ok, heq, -⟩ := h _ hmem
  cases heq

theorem stored_iff (ha : t.actor = some a) (tx : Oneshot) :
    Stored t tx ↔ ∃ m, a.messageClientTxs.lookup m = some tx := by
  constructor
  · rintro ⟨a₁, m, ha₁, hl⟩
    obtain rfl : a = a₁ := Option.some.inj (ha.symm.trans ha₁)
    exact ⟨m, hl⟩
  · rintro ⟨m, hl⟩
    exact ⟨a, m, ha, hl⟩

/-- A task that is gone after a step answers nobody in it, and drops the command's sender together
with every sender it still stored. -/
theorem effects_of_dead (hs : (machine H).step t c = some (t', e)) (hdead : t'.actor = none)
    (tx : Oneshot) :
    e.answers tx = [] ∧ (e.Drops tx ↔ tx ∈ respondTo e.command ∨ Stored t tx) := by
  have hnil : ∀ l : List Oneshot,
      (l.map (Effect.drop (H := H))).filterMap (Effect.answer? tx) = [] := by
    intro l
    rw [List.filterMap_eq_nil_iff]
    intro effect hmem
    obtain ⟨tx', -, rfl⟩ := List.mem_map.mp hmem
    rfl
  obtain ⟨-, -, -, ⟨ha, -, -, heff⟩ | ⟨a, ha, -, -, heff⟩ | ⟨_, a', _, -, ha', -⟩⟩ := step_cases hs
  · refine ⟨by rw [Event.answers, heff, hnil], ?_⟩
    simp [Event.Drops, heff, Stored, ha]
  · refine ⟨by rw [Event.answers, heff, hnil], ?_⟩
    have hstored : Stored t tx ↔ tx ∈ a.messageClientTxs.entries.map Sigma.snd := by
      rw [stored_iff ha]
      simp only [List.mem_map, Sigma.exists, HashMap.mem_entries_iff_lookup, exists_eq_right]
    rw [hstored]
    simp [Event.Drops, heff]
  · cases hdead.symm.trans ha'

theorem not_stored_of_dead (hdead : t.actor = none) (tx : Oneshot) : ¬ Stored t tx := by
  rintro ⟨a, m, ha, -⟩
  rw [hdead] at ha
  cases ha

theorem stored_insert {m : MessageId} {tx₀ : Oneshot} (ha' : t'.actor = some a')
    (htxs : a'.messageClientTxs = a.messageClientTxs.insert m tx₀) (tx : Oneshot) :
    Stored t' tx ↔ tx = tx₀ ∨ ∃ m', m' ≠ m ∧ a.messageClientTxs.lookup m' = some tx := by
  rw [stored_iff ha', htxs]
  simp only [HashMap.lookup_insert_eq_ite]
  constructor
  · rintro ⟨m', hl⟩
    by_cases hm : m' = m
    · rw [if_pos hm] at hl
      exact Or.inl (Option.some.inj hl).symm
    · rw [if_neg hm] at hl
      exact Or.inr ⟨m', hm, hl⟩
  · rintro (rfl | ⟨m', hm, hl⟩)
    · exact ⟨m, if_pos rfl⟩
    · exact ⟨m', by rw [if_neg hm]; exact hl⟩

theorem stored_erase {m : MessageId} (ha' : t'.actor = some a')
    (htxs : a'.messageClientTxs = a.messageClientTxs.erase m) (tx : Oneshot) :
    Stored t' tx ↔ ∃ m', m' ≠ m ∧ a.messageClientTxs.lookup m' = some tx := by
  rw [stored_iff ha', htxs]
  simp only [HashMap.lookup_erase_eq_ite]
  constructor
  · rintro ⟨m', hl⟩
    by_cases hm : m' = m
    · rw [if_pos hm] at hl
      cases hl
    · rw [if_neg hm] at hl
      exact ⟨m', hm, hl⟩
  · rintro ⟨m', hm, hl⟩
    exact ⟨m', by rw [if_neg hm]; exact hl⟩

/-! ## The answers and drops of a live step -/

/-- What a handled command does on `tx`, case by case of `Handled`: the answers it gives, whether it
drops `tx`, and whether `tx` is stored afterwards. -/
inductive Waits (a : EchoBroadcastActor H) (e : Event H) (t' : EchoTask H) (tx : Oneshot) : Prop
  | failed {data : Message} {members : ReliableSenderMap H} {tx₀ : Oneshot}
      (hcmd : e.command = .send data members tx₀)
      (hfail : ∃ x ∈ members.keys, ∃ handle, Effect.reliableSend x handle data false ∈ e.effects)
      (hans : e.answers tx =
        if tx₀ = tx then [.error "Error sending using reliable sender"] else [])
      (hdrop : ¬ e.Drops tx)
      (hstored : Stored t' tx ↔ ∃ m, a.messageClientTxs.lookup m = some tx) : Waits a e t' tx
  | completed {data : Message} {members : ReliableSenderMap H} {tx₀ : Oneshot} {m : MessageId}
      (hcmd : e.command = .send data members tx₀) (hid : data.getMessageId = some m)
      (hreach : ∀ x ∈ members.keys, e.reach x = true) (hans : e.answers tx = [])
      (hdrop : e.Drops tx ↔ a.messageClientTxs.lookup m = some tx)
      (hstored : Stored t' tx ↔
        tx = tx₀ ∨ ∃ m', m' ≠ m ∧ a.messageClientTxs.lookup m' = some tx) : Waits a e t' tx
  | awaited {data : Message} (hcmd : e.command = .echo data) (hans : e.answers tx = [])
      (hdrop : ¬ e.Drops tx)
      (hstored : Stored t' tx ↔ ∃ m, a.messageClientTxs.lookup m = some tx) : Waits a e t' tx
  | answered {data : Message} {m : MessageId} (hcmd : e.command = .echo data)
      (hid : data.getMessageId = some m)
      (hans : e.answers tx = if a.messageClientTxs.lookup m = some tx then [.ok ()] else [])
      (hdrop : ¬ e.Drops tx)
      (hstored : Stored t' tx ↔ ∃ m', m' ≠ m ∧ a.messageClientTxs.lookup m' = some tx) :
      Waits a e t' tx

theorem waits_of_handled (ha' : t'.actor = some a') (h : Handled a e a') (tx : Oneshot) :
    Waits a e t' tx := by
  cases h with
  | @sendFailed data members tx₀ m sent hcmd hid hout hsent hreach hfail heff hsenders htxs =>
      obtain ⟨x, hx, handle, hmem⟩ := hfail
      refine .failed hcmd ⟨x, hx, handle, ?_⟩ ?_ ?_ ?_
      · rw [heff]
        exact List.mem_append_left _ hmem
      · rw [Event.answers, heff, List.filterMap_append, answers_of_onlySends hsent tx]
        by_cases heq : tx₀ = tx <;> simp [Effect.answer?, heq]
      · rw [Event.Drops, heff, List.mem_append]
        rintro (hmem' | hmem')
        · exact drop_notMem_of_onlySends hsent tx hmem'
        · simp at hmem'
      · rw [stored_iff ha', htxs]
  | sendCompleted hcmd hid hout hsent hreach hreached heff hsenders htxs =>
      refine .completed hcmd hid hreach ?_ ?_ (stored_insert ha' htxs tx)
      · rw [Event.answers, heff, List.filterMap_append, answers_of_onlySends hsent tx]
        cases a.messageClientTxs.lookup _ <;> rfl
      · rw [Event.Drops, heff, List.mem_append, or_iff_right (drop_notMem_of_onlySends hsent tx)]
        cases a.messageClientTxs.lookup _ <;> simp [eq_comm]
  | echoAwaited hcmd hid hout hmissing heff hsenders htxs =>
      refine .awaited hcmd ?_ ?_ ?_
      · simp [Event.answers, heff]
      · simp [Event.Drops, heff]
      · rw [stored_iff ha', htxs]
  | echoCompleted hcmd hid hout hall heff hsenders htxs =>
      refine .answered hcmd hid ?_ ?_ (stored_erase ha' htxs tx)
      · rw [Event.answers, heff]
        cases a.messageClientTxs.lookup _ with
        | none => simp
        | some tx₁ => by_cases heq : tx₁ = tx <;> simp [Effect.answer?, heq]
      · rw [Event.Drops, heff]
        cases a.messageClientTxs.lookup _ <;> simp

/-! ## The fate of a ticket in one step -/

/-- How the sender half of `tx` stands after a run: it waits, or it was used once, or it is lost. -/
inductive Fate (tr : List (Event H)) (t : EchoTask H) (tx : Oneshot) (Failed : Prop) : Prop
  | waiting : Stored t tx → answers tr tx = [] → ¬ Dropped tr tx → Fate tr t tx Failed
  | finished : ¬ Stored t tx → answers tr tx = [.ok ()] → ¬ Dropped tr tx → Fate tr t tx Failed
  | failed : ¬ Stored t tx → answers tr tx = [.error "Error sending using reliable sender"] →
      ¬ Dropped tr tx → Failed → Fate tr t tx Failed
  | lost : ¬ Stored t tx → answers tr tx = [] → Dropped tr tx → Fate tr t tx Failed

theorem lookup_ne_of_not_stored (ha : t.actor = some a) {tx : Oneshot} (hnot : ¬ Stored t tx)
    (m : MessageId) : a.messageClientTxs.lookup m ≠ some tx := by
  intro hl
  exact hnot ((stored_iff ha tx).mpr ⟨m, hl⟩)

/-- Only a stored sender can be answered or dropped by a later command, and once it is not stored
any more nothing happens on it. -/
theorem not_stored_step (hs : (machine H).step t c = some (t', e)) {tx : Oneshot}
    (hnew : tx ∉ respondTo e.command) (hnot : ¬ Stored t tx) :
    ¬ Stored t' tx ∧ e.answers tx = [] ∧ ¬ e.Drops tx := by
  cases hlive : t'.actor with
  | none =>
      obtain ⟨hans, hdrop⟩ := effects_of_dead hs hlive tx
      refine ⟨not_stored_of_dead hlive tx, hans, ?_⟩
      rw [hdrop]
      rintro (h | h)
      · exact hnew h
      · exact hnot h
  | some a' =>
      obtain ⟨a, ha, hh⟩ := handled_cases hs hlive
      have hlook := lookup_ne_of_not_stored ha hnot
      cases waits_of_handled hlive hh tx with
      | @failed data members tx₀ hcmd hfail hans hdrop hstored =>
          rw [hcmd] at hnew
          have hne : tx₀ ≠ tx := fun h => hnew (by simp [respondTo, h])
          refine ⟨?_, by rw [hans, if_neg hne], hdrop⟩
          rw [hstored]
          exact fun ⟨m, hl⟩ => hlook m hl
      | completed hcmd hid hreach hans hdrop hstored =>
          rw [hcmd] at hnew
          refine ⟨?_, hans, fun h => hlook _ (hdrop.mp h)⟩
          rw [hstored]
          rintro (rfl | ⟨m', -, hl⟩)
          · exact hnew (by simp [respondTo])
          · exact hlook m' hl
      | awaited hcmd hans hdrop hstored =>
          refine ⟨?_, hans, hdrop⟩
          rw [hstored]
          exact fun ⟨m, hl⟩ => hlook m hl
      | answered hcmd hid hans hdrop hstored =>
          refine ⟨?_, by rw [hans, if_neg (hlook _)], hdrop⟩
          rw [hstored]
          exact fun ⟨m', _, hl⟩ => hlook m' hl

/-- A stored sender stays stored, or is answered `Ok` once, or is dropped. -/
theorem stored_step (hd : WaitersDistinct t) (hs : (machine H).step t c = some (t', e))
    {tx : Oneshot} (hnew : tx ∉ respondTo e.command) (hst : Stored t tx) :
    (Stored t' tx ∧ e.answers tx = [] ∧ ¬ e.Drops tx) ∨
      (¬ Stored t' tx ∧ e.answers tx = [.ok ()] ∧ ¬ e.Drops tx) ∨
      (¬ Stored t' tx ∧ e.answers tx = [] ∧ e.Drops tx) := by
  cases hlive : t'.actor with
  | none =>
      obtain ⟨hans, hdrop⟩ := effects_of_dead hs hlive tx
      exact Or.inr (Or.inr ⟨not_stored_of_dead hlive tx, hans, hdrop.mpr (Or.inr hst)⟩)
  | some a' =>
      obtain ⟨a, ha, hh⟩ := handled_cases hs hlive
      obtain ⟨m₀, hl₀⟩ := (stored_iff ha tx).mp hst
      -- the sender is stored under `m₀` and under no other id
      have hother : ∀ m, (∃ m', m' ≠ m ∧ a.messageClientTxs.lookup m' = some tx) ↔ m₀ ≠ m := by
        intro m
        constructor
        · rintro ⟨m', hne, hl⟩
          rw [hd.unique a m₀ m' tx ha hl₀ hl]
          exact hne
        · intro hne
          exact ⟨m₀, hne, hl₀⟩
      cases waits_of_handled hlive hh tx with
      | @failed data members tx₀ hcmd hfail hans hdrop hstored =>
          rw [hcmd] at hnew
          have hne : tx₀ ≠ tx := fun h => hnew (by simp [respondTo, h])
          exact Or.inl ⟨hstored.mpr ⟨m₀, hl₀⟩, by rw [hans, if_neg hne], hdrop⟩
      | @completed data members tx₀ m hcmd hid hreach hans hdrop hstored =>
          rw [hcmd] at hnew
          have hne : tx ≠ tx₀ := fun h => hnew (by simp [respondTo, h])
          rw [or_iff_right hne, hother] at hstored
          by_cases hm : m₀ = m
          · subst hm
            exact Or.inr (Or.inr ⟨fun h => hstored.mp h rfl, hans, hdrop.mpr hl₀⟩)
          · refine Or.inl ⟨hstored.mpr hm, hans, fun h => hm ?_⟩
            exact hd.unique a m₀ m tx ha hl₀ (hdrop.mp h)
      | awaited hcmd hans hdrop hstored =>
          exact Or.inl ⟨hstored.mpr ⟨m₀, hl₀⟩, hans, hdrop⟩
      | @answered data m hcmd hid hans hdrop hstored =>
          rw [hother] at hstored
          by_cases hm : m₀ = m
          · subst hm
            exact Or.inr (Or.inl ⟨fun h => hstored.mp h rfl, by rw [hans, if_pos hl₀], hdrop⟩)
          · refine Or.inl ⟨hstored.mpr hm, ?_, hdrop⟩
            rw [hans, if_neg]
            intro hl
            exact hm (hd.unique a m₀ m tx ha hl₀ hl)

theorem mem_respondTo (hs : (machine H).step t c = some (t', e)) {tx : Oneshot}
    (htx : tx ∈ respondTo e.command) : tx = t.opened ∧ t'.opened = t.opened + 1 := by
  obtain ⟨hopened, hcmd⟩ := opened_of_step hs
  rw [hcmd] at htx
  cases c with
  | send data members reach => exact ⟨List.mem_singleton.mp htx, hopened⟩
  | echo data => cases htx

theorem opened_le (hs : (machine H).step t c = some (t', e)) : t.opened ≤ t'.opened := by
  rw [(opened_of_step hs).1]
  cases c with
  | send data members reach => exact Nat.le_succ _
  | echo data => exact Nat.le_refl _

/-- The sender that a step opens is new. -/
theorem not_stored_of_mem_respondTo (hd : WaitersDistinct t)
    (hs : (machine H).step t c = some (t', e)) {tx : Oneshot} (htx : tx ∈ respondTo e.command) :
    ¬ Stored t tx := by
  intro hst
  have hlt := hd.opened tx hst
  obtain ⟨rfl, -⟩ := mem_respondTo hs htx
  exact Nat.lt_irrefl _ hlt

/-- The sender of a Send that is being processed is stored, or answered with an error because a
reliable send failed, or dropped with the task. -/
theorem new_step (hd : WaitersDistinct t) (hs : (machine H).step t c = some (t', e))
    {data : Message} {members : ReliableSenderMap H} {tx : Oneshot}
    (hcmd : e.command = .send data members tx) :
    (Stored t' tx ∧ e.answers tx = [] ∧ ¬ e.Drops tx) ∨
      (¬ Stored t' tx ∧ e.answers tx = [.error "Error sending using reliable sender"] ∧
        ¬ e.Drops tx ∧
        ∃ x ∈ members.keys, ∃ handle, Effect.reliableSend x handle data false ∈ e.effects) ∨
      (¬ Stored t' tx ∧ e.answers tx = [] ∧ e.Drops tx) := by
  have hfresh : ¬ Stored t tx :=
    not_stored_of_mem_respondTo hd hs (by simp [hcmd, respondTo])
  cases hlive : t'.actor with
  | none =>
      obtain ⟨hans, hdrop⟩ := effects_of_dead hs hlive tx
      refine Or.inr (Or.inr ⟨not_stored_of_dead hlive tx, hans, hdrop.mpr (Or.inl ?_)⟩)
      simp [hcmd, respondTo]
  | some a' =>
      obtain ⟨a, ha, hh⟩ := handled_cases hs hlive
      have hlook := lookup_ne_of_not_stored ha hfresh
      cases waits_of_handled hlive hh tx with
      | failed hcmd' hfail hans hdrop hstored =>
          obtain ⟨rfl, rfl, rfl⟩ := EchoBroadcastMessage.send.inj (hcmd.symm.trans hcmd')
          refine Or.inr (Or.inl ⟨?_, by rw [hans, if_pos rfl], hdrop, hfail⟩)
          rw [hstored]
          exact fun ⟨m, hl⟩ => hlook m hl
      | completed hcmd' hid hreach hans hdrop hstored =>
          obtain ⟨rfl, rfl, rfl⟩ := EchoBroadcastMessage.send.inj (hcmd.symm.trans hcmd')
          exact Or.inl ⟨hstored.mpr (Or.inl rfl), hans, fun h => hlook _ (hdrop.mp h)⟩
      | awaited hcmd' => cases hcmd.symm.trans hcmd'
      | answered hcmd' => cases hcmd.symm.trans hcmd'

theorem distinct_step (hd : WaitersDistinct t) (hs : (machine H).step t c = some (t', e)) :
    WaitersDistinct t' := by
  refine ⟨?_, ?_⟩
  · intro tx hst
    by_cases hnew : tx ∈ respondTo e.command
    · obtain ⟨rfl, hopened⟩ := mem_respondTo hs hnew
      rw [hopened]
      exact Nat.lt_succ_self _
    · by_cases hold : Stored t tx
      · exact Nat.lt_of_lt_of_le (hd.opened tx hold) (opened_le hs)
      · exact absurd hst (not_stored_step hs hnew hold).1
  · intro a' m m' tx ha' hl hl'
    obtain ⟨a, ha, hh⟩ := handled_cases hs ha'
    cases hh with
    | sendFailed hcmd hid hout hsent hreach hfail heff hsenders htxs =>
        rw [htxs] at hl hl'
        exact hd.unique a m m' tx ha hl hl'
    | @sendCompleted data members tx₀ m₀ sent hcmd hid hout hsent hreach hreached heff hsenders
        htxs =>
        -- the inserted sender is new, so it equals none of the stored ones
        have hnew := lookup_ne_of_not_stored ha
          (not_stored_of_mem_respondTo hd hs (show tx₀ ∈ respondTo e.command by simp [hcmd, respondTo]))
        rw [htxs, HashMap.lookup_insert_eq_ite] at hl hl'
        split at hl
        · next hm =>
            obtain rfl := Option.some.inj hl
            split at hl'
            · next hm' => rw [hm, hm']
            · exact absurd hl' (hnew m')
        · split at hl'
          · obtain rfl := Option.some.inj hl'
            exact absurd hl (hnew m)
          · exact hd.unique a m m' tx ha hl hl'
    | echoAwaited hcmd hid hout hmissing heff hsenders htxs =>
        rw [htxs] at hl hl'
        exact hd.unique a m m' tx ha hl hl'
    | echoCompleted hcmd hid hout hall heff hsenders htxs =>
        rw [htxs, HashMap.lookup_erase_eq_ite] at hl hl'
        split at hl
        · cases hl
        · split at hl'
          · cases hl'
          · exact hd.unique a m m' tx ha hl hl'

/-! ## The conservation law -/

/-- A reliable send of this Send failed. -/
def SendFailedAt (e : Event H) (data : Message) (members : ReliableSenderMap H) : Prop :=
  ∃ x ∈ members.keys, ∃ handle, Effect.reliableSend x handle data false ∈ e.effects

/-- The books of a run: senders not opened yet are untouched, every Send has its own sender, and
every sender has a fate. -/
structure Ledger (tr : List (Event H)) (t : EchoTask H) : Prop where
  distinct : WaitersDistinct t
  unopened : ∀ tx, t.opened ≤ tx → answers tr tx = [] ∧ ¬ Dropped tr tx
  opened : ∀ e ∈ tr, ∀ tx ∈ respondTo e.command, tx < t.opened
  unique : ∀ e ∈ tr, ∀ e' ∈ tr, ∀ tx ∈ respondTo e.command, tx ∈ respondTo e'.command → e = e'
  fate : ∀ e ∈ tr, ∀ data members tx, e.command = .send data members tx →
    Fate tr t tx (SendFailedAt e data members)

theorem ledger_nil (hd : WaitersDistinct t) : Ledger [] t where
  distinct := hd
  unopened := by
    intro tx _
    simp [answers, Dropped]
  opened := by
    intro e he
    cases he
  unique := by
    intro e he
    cases he
  fate := by
    intro e he
    cases he

/-- The fate of a sender that this step does not open. -/
theorem fate_step {tr : List (Event H)} (hd : WaitersDistinct t)
    (hs : (machine H).step t c = some (t', e)) {tx : Oneshot} (hnew : tx ∉ respondTo e.command)
    {Failed : Prop} (hfate : Fate tr t tx Failed) : Fate (tr ++ [e]) t' tx Failed := by
  have hquiet : e.answers tx = [] → answers (tr ++ [e]) tx = answers tr tx := by
    intro hans
    rw [answers_snoc, hans, List.append_nil]
  cases hfate with
  | waiting hst hans hdrop =>
      -- the only fate that can still change
      rcases stored_step hd hs hnew hst with ⟨hst', hans', hdrop'⟩ | ⟨hst', hans', hdrop'⟩ |
        ⟨hst', hans', hdrop'⟩
      · exact .waiting hst' ((hquiet hans').trans hans) (not_dropped_snoc hdrop hdrop')
      · refine .finished hst' ?_ (not_dropped_snoc hdrop hdrop')
        rw [answers_snoc, hans, hans', List.nil_append]
      · exact .lost hst' ((hquiet hans').trans hans) (dropped_snoc.mpr (Or.inr hdrop'))
  | finished hst hans hdrop =>
      obtain ⟨hst', hans', hdrop'⟩ := not_stored_step hs hnew hst
      exact .finished hst' ((hquiet hans').trans hans) (not_dropped_snoc hdrop hdrop')
  | failed hst hans hdrop hfail =>
      obtain ⟨hst', hans', hdrop'⟩ := not_stored_step hs hnew hst
      exact .failed hst' ((hquiet hans').trans hans) (not_dropped_snoc hdrop hdrop') hfail
  | lost hst hans hdrop =>
      obtain ⟨hst', hans', -⟩ := not_stored_step hs hnew hst
      exact .lost hst' ((hquiet hans').trans hans) (dropped_snoc.mpr (Or.inl hdrop))

/-- The fate of the sender this step opens. -/
theorem fate_new {tr : List (Event H)} (hd : WaitersDistinct t)
    (hs : (machine H).step t c = some (t', e)) {data : Message} {members : ReliableSenderMap H}
    {tx : Oneshot} (hcmd : e.command = .send data members tx) (hans : answers tr tx = [])
    (hdrop : ¬ Dropped tr tx) : Fate (tr ++ [e]) t' tx (SendFailedAt e data members) := by
  rcases new_step hd hs hcmd with ⟨hst', hans', hdrop'⟩ | ⟨hst', hans', hdrop', hfail⟩ |
    ⟨hst', hans', hdrop'⟩
  · refine .waiting hst' ?_ (not_dropped_snoc hdrop hdrop')
    rw [answers_snoc, hans, hans', List.append_nil]
  · refine .failed hst' ?_ (not_dropped_snoc hdrop hdrop') hfail
    rw [answers_snoc, hans, hans', List.nil_append]
  · refine .lost hst' ?_ (dropped_snoc.mpr (Or.inr hdrop'))
    rw [answers_snoc, hans, hans', List.append_nil]

/-- A sender is opened once: the one this step opens is later than all before. -/
theorem Ledger.notMem_respondTo {tr : List (Event H)} (hl : Ledger tr t)
    (hs : (machine H).step t c = some (t', e)) {e' : Event H} (he' : e' ∈ tr) {tx : Oneshot}
    (htx : tx ∈ respondTo e'.command) : tx ∉ respondTo e.command := by
  intro hmem
  have hlt := hl.opened e' he' tx htx
  obtain ⟨rfl, -⟩ := mem_respondTo hs hmem
  exact Nat.lt_irrefl _ hlt

theorem ledger_step {tr : List (Event H)} (hl : Ledger tr t)
    (hs : (machine H).step t c = some (t', e)) : Ledger (tr ++ [e]) t' where
  distinct := distinct_step hl.distinct hs
  unopened := by
    intro tx htx
    have hle : t.opened ≤ tx := Nat.le_trans (opened_le hs) htx
    obtain ⟨hans, hdrop⟩ := hl.unopened tx hle
    have hnew : tx ∉ respondTo e.command := by
      intro hmem
      obtain ⟨rfl, hopened⟩ := mem_respondTo hs hmem
      rw [hopened] at htx
      exact Nat.not_succ_le_self _ htx
    have hnot : ¬ Stored t tx := by
      intro hst
      exact Nat.lt_irrefl _ (Nat.lt_of_lt_of_le (hl.distinct.opened tx hst) hle)
    obtain ⟨-, hans', hdrop'⟩ := not_stored_step hs hnew hnot
    rw [answers_snoc, hans, hans']
    exact ⟨rfl, not_dropped_snoc hdrop hdrop'⟩
  opened := by
    intro e' he' tx htx
    rcases List.mem_append.mp he' with he' | he'
    · exact Nat.lt_of_lt_of_le (hl.opened e' he' tx htx) (opened_le hs)
    · obtain rfl := List.mem_singleton.mp he'
      obtain ⟨rfl, hopened⟩ := mem_respondTo hs htx
      rw [hopened]
      exact Nat.lt_succ_self _
  unique := by
    intro e₁ he₁ e₂ he₂ tx h₁ h₂
    rcases List.mem_append.mp he₁ with hold₁ | hlast₁
    · rcases List.mem_append.mp he₂ with hold₂ | hlast₂
      · exact hl.unique e₁ hold₁ e₂ hold₂ tx h₁ h₂
      · obtain rfl := List.mem_singleton.mp hlast₂
        exact absurd h₂ (hl.notMem_respondTo hs hold₁ h₁)
    · obtain rfl := List.mem_singleton.mp hlast₁
      rcases List.mem_append.mp he₂ with hold₂ | hlast₂
      · exact absurd h₁ (hl.notMem_respondTo hs hold₂ h₂)
      · exact (List.mem_singleton.mp hlast₂).symm
  fate := by
    intro e' he' data members tx hcmd
    have htx : tx ∈ respondTo e'.command := by simp [hcmd, respondTo]
    rcases List.mem_append.mp he' with hold | hlast
    · exact fate_step hl.distinct hs (hl.notMem_respondTo hs hold htx)
        (hl.fate e' hold data members tx hcmd)
    · obtain rfl := List.mem_singleton.mp hlast
      obtain ⟨heq, -⟩ := mem_respondTo hs htx
      obtain ⟨hans, hdrop⟩ := hl.unopened tx (Nat.le_of_eq heq.symm)
      exact fate_new hl.distinct hs hcmd hans hdrop

end Steps

section Runs

variable {G : EchoTask H → Event H → Prop} {t₀ t : EchoTask H} {tr : List (Event H)}

/-- **Conservation.**  Along every run, panics included, the books balance. -/
theorem ledger_of_run (hd : WaitersDistinct t₀) (hrun : (machine H).RunWith G t₀ tr t) :
    Ledger tr t :=
  hrun.invariant (ledger_nil hd) fun _ hl hs _ => ledger_step hl hs

theorem distinct_start : WaitersDistinct (start : EchoTask H) where
  opened := by
    rintro tx ⟨a, m, ha, hl⟩
    obtain rfl : EchoBroadcastActor.start = a := Option.some.inj ha
    cases hl
  unique := by
    intro a m m' tx ha hl
    obtain rfl : EchoBroadcastActor.start = a := Option.some.inj ha
    cases hl

/-- A sender that was opened during the run came with a Send of the run. -/
theorem sent_of_opened (hrun : (machine H).RunWith G t₀ tr t) {tx : Oneshot}
    (hle : t₀.opened ≤ tx) (hlt : tx < t.opened) :
    ∃ e ∈ tr, ∃ data members, e.command = .send data members tx := by
  induction hrun with
  | nil => exact absurd hlt (Nat.not_lt_of_le hle)
  | @snoc tr s s' c e hprev hs hG ih =>
      by_cases hold : tx < s.opened
      · obtain ⟨e', he', hcmd⟩ := ih hold
        exact ⟨e', List.mem_append_left _ he', hcmd⟩
      · obtain ⟨hopened, hcmd⟩ := opened_of_step hs
        refine ⟨e, by simp, ?_⟩
        cases c with
        | echo data =>
            rw [hopened] at hlt
            exact absurd hlt hold
        | send data members reach =>
            have htx : tx = s.opened := by
              rw [hopened] at hlt
              exact Nat.le_antisymm (Nat.lt_succ_iff.mp hlt) (Nat.le_of_not_lt hold)
            exact ⟨data, members, by rw [hcmd, htx]; rfl⟩

/-- What is dropped along a run from the start came with a Send of the run. -/
theorem sent_of_dropped (hrun : (machine H).RunWith G start tr t) {tx : Oneshot}
    (hdrop : Dropped tr tx) : ∃ e ∈ tr, ∃ data members, e.command = .send data members tx := by
  have hl := ledger_of_run distinct_start hrun
  refine sent_of_opened hrun (Nat.zero_le _) ?_
  by_contra hlt
  exact (hl.unopened tx (Nat.le_of_not_lt hlt)).2 hdrop

end Runs

/-! ## No waiter is lost exactly when no stored sender is replaced -/

/-- Every Send so far has its sender stored, or used exactly once with `Ok`, or used exactly once
with an error because a reliable send to one of its members failed; none is dropped. -/
def NoWaiterLost (tr : List (Event H)) (t : EchoTask H) : Prop :=
  ∀ e ∈ tr, ∀ data members tx, e.command = .send data members tx →
    ¬ Dropped tr tx ∧
      ((Stored t tx ∧ answers tr tx = []) ∨
        (¬ Stored t tx ∧ answers tr tx = [.ok ()]) ∨
        (¬ Stored t tx ∧ (∃ msg, answers tr tx = [.error msg]) ∧ SendFailedAt e data members))

/-- The command is a Send all of whose reliable sends succeed, and the actor still stores a sender
under its message id. -/
def Overwrites (t : EchoTask H) (e : Event H) : Prop :=
  ∃ data members tx m a tx', e.command = .send data members tx ∧ data.getMessageId = some m ∧
    (∀ x ∈ members.keys, e.reach x = true) ∧ t.actor = some a ∧
    a.messageClientTxs.lookup m = some tx'

section NoWaiterLost

variable {G : EchoTask H → Event H → Prop} {t t' : EchoTask H} {c : Call H} {e : Event H}
  {a : EchoBroadcastActor H} {tr : List (Event H)}

/-- A well identified command does not panic: the loop over a non-empty member map creates the
entry that the rest of `send_message` unwraps. -/
theorem alive_step (hs : (machine H).step t c = some (t', e)) (ha : t.actor = some a)
    (hid : e.command.wellIdentified = true) : ∃ a', t'.actor = some a' := by
  rw [(opened_of_step hs).2] at hid
  obtain ⟨⟨a', effects, result⟩, hr⟩ :=
    Option.ne_none_iff_exists'.mp (handleMessage_ne_none hid a c.reach)
  rw [machine_step_iff] at hs
  simp only [step, process, ha, hr, Prod.mk.injEq] at hs
  obtain ⟨rfl, -⟩ := hs
  exact ⟨a', rfl⟩

/-- A run of well identified commands stays alive. -/
theorem alive_run (hrun : (machine H).RunWith G t tr t') (ha : t.actor = some a)
    (hid : ∀ e ∈ tr, e.command.wellIdentified = true) : ∃ a', t'.actor = some a' := by
  induction hrun with
  | nil => exact ⟨a, ha⟩
  | snoc _ hs _ ih =>
      obtain ⟨a₁, ha₁⟩ := ih fun e he => hid e (List.mem_append_left _ he)
      exact alive_step hs ha₁ (hid _ (by simp))

/-- A live task drops a sender exactly where a Send replaces it. -/
theorem drops_iff_overwrites (hs : (machine H).step t c = some (t', e)) (ha : t.actor = some a)
    (hid : e.command.wellIdentified = true) : (∃ tx, e.Drops tx) ↔ Overwrites t e := by
  obtain ⟨a', ha'⟩ := alive_step hs ha hid
  obtain ⟨a₁, ha₁, hh⟩ := handled_cases hs ha'
  obtain rfl : a = a₁ := Option.some.inj (ha.symm.trans ha₁)
  constructor
  · rintro ⟨tx, hdrop⟩
    cases waits_of_handled ha' hh tx with
    | completed hcmd hm hreach hans hiff hstored =>
        exact ⟨_, _, _, _, a, tx, hcmd, hm, hreach, ha, hiff.mp hdrop⟩
    | failed hcmd hfail hans hno => exact absurd hdrop hno
    | awaited hcmd hans hno => exact absurd hdrop hno
    | answered hcmd hm hans hno => exact absurd hdrop hno
  · rintro ⟨data, members, tx, m, a₂, tx', hcmd, hm, hreach, ha₂, hl⟩
    obtain rfl : a = a₂ := Option.some.inj (ha.symm.trans ha₂)
    refine ⟨tx', ?_⟩
    obtain ⟨k, sent, hk, -, ⟨-, hnot, -⟩ | ⟨-, -, heff, -⟩⟩ := hh.of_send hcmd
    · exact absurd hreach hnot
    · obtain rfl : m = k := Option.some.inj (hm.symm.trans hk)
      rw [Event.Drops, heff, hl]
      simp

/-- A run in which no Send replaces a stored sender drops nothing. -/
theorem nothing_dropped_of_guarded
    (hrun : (machine H).RunWith (fun s e => ¬ Overwrites s e) start tr t)
    (hid : ∀ e ∈ tr, e.command.wellIdentified = true) (tx : Oneshot) : ¬ Dropped tr tx := by
  induction hrun with
  | nil => simp [Dropped]
  | @snoc tr s s' c e hprev hs hnot ih =>
      have hid' : ∀ e ∈ tr, e.command.wellIdentified = true := fun e he => hid e (List.mem_append_left _ he)
      obtain ⟨a, ha⟩ := alive_run hprev rfl hid'
      intro hdrop
      rcases dropped_snoc.mp hdrop with hbefore | hnow
      · exact ih hid' hbefore
      · exact hnot ((drops_iff_overwrites hs ha (hid e (by simp))).mp ⟨tx, hnow⟩)

/-- A run that drops nothing never lets a Send replace a stored sender. -/
theorem guarded_of_nothing_dropped (hrun : (machine H).Run start tr t)
    (hid : ∀ e ∈ tr, e.command.wellIdentified = true) (hno : ∀ tx, ¬ Dropped tr tx) :
    (machine H).RunWith (fun s e => ¬ Overwrites s e) start tr t := by
  induction hrun with
  | nil => exact .nil
  | @snoc tr s s' c e hprev hs _ ih =>
      have hid' : ∀ e ∈ tr, e.command.wellIdentified = true := fun e he => hid e (List.mem_append_left _ he)
      obtain ⟨a, ha⟩ := alive_run hprev rfl hid'
      have hbefore := ih hid' fun tx h => hno tx (dropped_snoc.mpr (Or.inl h))
      refine hbefore.snoc hs fun hover => ?_
      obtain ⟨tx, hdrop⟩ := (drops_iff_overwrites hs ha (hid e (by simp))).mpr hover
      exact hno tx (dropped_snoc.mpr (Or.inr hdrop))

/-- The three conditions of `NoWaiterLost` are all that is left once nothing is dropped. -/
theorem noWaiterLost_iff_nothing_dropped (hrun : (machine H).Run start tr t) :
    NoWaiterLost tr t ↔ ∀ tx, ¬ Dropped tr tx := by
  constructor
  · intro h tx hdrop
    obtain ⟨e, he, data, members, hcmd⟩ := sent_of_dropped hrun hdrop
    exact (h e he data members tx hcmd).1 hdrop
  · intro hno e he data members tx hcmd
    refine ⟨hno tx, ?_⟩
    cases (ledger_of_run distinct_start hrun).fate e he data members tx hcmd with
    | waiting hst hans _ => exact Or.inl ⟨hst, hans⟩
    | finished hst hans _ => exact Or.inr (Or.inl ⟨hst, hans⟩)
    | failed hst hans _ hfail => exact Or.inr (Or.inr ⟨hst, ⟨_, hans⟩, hfail⟩)
    | lost _ _ hdrop => exact absurd hdrop (hno tx)

/-- **No waiter is lost in exactly the runs in which no Send replaces a stored sender.**  A Send
replaces one when all its reliable sends succeed while the broadcast of an earlier Send with the
same message id is still waiting for echos. -/
theorem noWaiterLost_iff (hrun : (machine H).Run start tr t)
    (hid : ∀ e ∈ tr, e.command.wellIdentified = true) :
    NoWaiterLost tr t ↔
      (machine H).RunWith (fun s e => ¬ Overwrites s e) start tr t := by
  rw [noWaiterLost_iff_nothing_dropped hrun]
  constructor
  · exact guarded_of_nothing_dropped hrun hid
  · intro hguarded tx
    exact nothing_dropped_of_guarded hguarded hid tx

end NoWaiterLost

/-! ## One broadcast, and the same broadcast sent twice -/

/-- A membership of one. -/
def onlyBob : ReliableSenderMap Unit := (∅ : ReliableSenderMap Unit).insert "b" ()

/-- One broadcast and its echo. -/
def sentOnce : List (Call Unit) :=
  [.send (Message.package "a" "hello" 1) onlyBob fun _ => true, .echo (Message.package "b" "hello" 1)]

/-- Two Sends of one broadcast, as two event loops issue them. -/
def sentTwice : List (Call Unit) :=
  [.send (Message.package "a" "hello" 1) onlyBob fun _ => true,
   .send (Message.package "a" "hello" 1) onlyBob fun _ => true]

/-- The broadcast that is sent once is one of the runs the equivalence speaks about. -/
theorem noWaiterLost_iff_sentOnce :
    (∀ e ∈ (runCalls start sentOnce).2, e.command.wellIdentified = true) ∧
      (NoWaiterLost (runCalls start sentOnce).2 (runCalls start sentOnce).1 ↔
        (machine Unit).RunWith (fun s e => ¬ Overwrites s e) start (runCalls start sentOnce).2
          (runCalls start sentOnce).1) :=
  ⟨by decide, noWaiterLost_iff (run_runCalls start sentOnce) (by decide)⟩

/-- The second of two Sends of one broadcast drops the sender of the first. -/
theorem waiter_lost_sentTwice :
    ¬ ∀ (tr : List (Event Unit)) (t : EchoTask Unit), (machine Unit).Run start tr t →
      (∀ e ∈ tr, e.command.wellIdentified = true) → NoWaiterLost tr t := by
  intro h
  have hrun := run_runCalls start sentTwice
  have hkept := h _ _ hrun (by decide)
  rw [noWaiterLost_iff_nothing_dropped hrun] at hkept
  refine hkept 0 ?_
  unfold Dropped Event.Drops
  decide

end EchoTask

end FrostFederation.EchoBroadcast
