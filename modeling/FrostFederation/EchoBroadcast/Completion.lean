/-
# FrostFederation.EchoBroadcast.Completion — when the client of a broadcast is answered.

Everything here is one fact about the Sends that succeed (`answered_iff_heard`): if no other Send of
the id follows, the client is answered exactly when an Echo of the id is processed after the Send and
everybody the id was ever sent to has been heard by the end.  The argument follows the stored sender
from the Send on.  A command that is not about the id leaves the sender and the entry of the id alone
(`echo_of_unrelated`); an Echo of the id either answers the sender or leaves a false entry behind
(`waiter_step`); and an entry is false exactly for a party that was reached and not heard.

Three things follow.  The echos that come before the Send count, but the test that answers the client
runs on the Echo path only: if all of them overtake the Send, nobody ever looks at the complete
record.  The parties are those of the ID and not of the Send: one that an earlier, failed Send of the
id reached keeps a later one waiting, member or not.  And after the first Send of an id the
completion point is exact, whatever other broadcasts do meanwhile.
-/
import FrostFederation.EchoBroadcast.Maps

namespace FrostFederation.EchoBroadcast

open FrostFederation.Lib
open FrostFederation.Protocol

variable {H : Type}

namespace Event

/-- The command is an Echo of id `m` from `x`. -/
def AsksEchoFrom (e : Event H) (m : MessageId) (x : String) : Prop :=
  ∃ echoed, e.command = .echo echoed ∧ echoed.getMessageId = some m ∧ echoed.getSenderId = x

/-- The command is an Echo of id `m`. -/
def AsksEcho (e : Event H) (m : MessageId) : Prop := ∃ x, e.AsksEchoFrom m x

/-- The command is a Send of id `m`. -/
def AsksSend (e : Event H) (m : MessageId) : Prop :=
  ∃ data members tx, e.command = .send data members tx ∧ data.getMessageId = some m

theorem asks_of_echoOf {e : Event H} {m : MessageId} {x : String} (h : e.EchoOf m x) :
    e.AsksEchoFrom m x := by
  obtain ⟨echoed, hcmd, hid, hx, -⟩ := h
  exact ⟨echoed, hcmd, hid, hx⟩

theorem asks_of_hears {e : Event H} {m : MessageId} {x : String} (h : e.Hears m x) :
    e.AsksEcho m ∨ e.AsksSend m := by
  rcases h with ⟨echoed, hcmd, hid, -⟩ | ⟨data, members, tx, hcmd, hid, -⟩
  · exact Or.inl ⟨_, echoed, hcmd, hid, rfl⟩
  · exact Or.inr ⟨data, members, tx, hcmd, hid⟩

theorem asksSend_of_reaches {e : Event H} {m : MessageId} {x : String} (h : e.Reaches m x) :
    e.AsksSend m := by
  obtain ⟨data, members, tx, hcmd, hid, -⟩ := h
  exact ⟨data, members, tx, hcmd, hid⟩

end Event

namespace EchoTask

variable {G : EchoTask H → Event H → Prop} {t₀ t t' : EchoTask H} {c : Call H}
  {e snd : Event H} {a₀ a a' : EchoBroadcastActor H} {tr pre post : List (Event H)}
  {data : Message} {members : ReliableSenderMap H} {m : MessageId} {tx : Oneshot}

/-! ## One step after the Send -/

/-- A command that is not about `m` leaves the entry of `m` alone. -/
theorem echo_of_unrelated (hs : (machine H).step t c = some (t', e)) (ha : t.actor = some a)
    (ha' : t'.actor = some a') (hecho : ¬ e.AsksEcho m) (hsend : ¬ e.AsksSend m) (x : String) :
    a'.echo m x = a.echo m x := by
  have hrec := recorded_of_step hs ha ha'
  have hhears : ¬ e.Hears m x := by
    intro h
    rcases Event.asks_of_hears h with hasks | hasks
    · exact hecho hasks
    · exact hsend hasks
  have hreaches : ¬ e.Reaches m x := fun h => hsend (Event.asksSend_of_reaches h)
  have htrue : a'.echo m x = some true ↔ a.echo m x = some true := by
    rw [hrec.heard]
    exact or_iff_left hhears
  have hnone : a'.echo m x = none ↔ a.echo m x = none := by
    rw [hrec.absent]
    exact and_iff_left ⟨hhears, hreaches⟩
  exact eq_of_true_iff_of_none_iff htrue hnone

/-- A stored sender survives a step that is not a Send of its id, and an Echo it survives leaves a
false entry; or it is answered, by an Echo. -/
theorem waiter_step (hh : Handled a e a') (hsend : ¬ e.AsksSend m)
    (hl : a.messageClientTxs.lookup m = some tx) :
    (a'.messageClientTxs.lookup m = some tx ∧
        (e.AsksEcho m → ∃ x, a'.echo m x = some false)) ∨
      (e.AsksEcho m ∧ Effect.respond tx (.ok ()) ∈ e.effects) := by
  cases hh with
  | sendFailed hcmd hid hout hsent hreach hfail heff hsenders htxs =>
      refine Or.inl ⟨by rw [htxs]; exact hl, ?_⟩
      rintro ⟨x, echoed, hcmd', -⟩
      cases hcmd.symm.trans hcmd'
  | @sendCompleted data members tx' k sent hcmd hid hout hsent hreach hreached heff hsenders htxs =>
      have hk : m ≠ k := by
        rintro rfl
        exact hsend ⟨data, members, tx', hcmd, hid⟩
      refine Or.inl ⟨?_, ?_⟩
      · rw [htxs, HashMap.lookup_insert_eq_ite, if_neg hk]
        exact hl
      · rintro ⟨x, echoed, hcmd', -⟩
        cases hcmd.symm.trans hcmd'
  | @echoAwaited echoed k hcmd hid hout hmissing heff hsenders htxs =>
      refine Or.inl ⟨by rw [htxs]; exact hl, ?_⟩
      rintro ⟨x, echoed', hcmd', hid', -⟩
      obtain rfl := EchoBroadcastMessage.echo.inj (hcmd.symm.trans hcmd')
      obtain rfl : k = m := Option.some.inj (hid.symm.trans hid')
      exact hmissing
  | @echoCompleted echoed k hcmd hid hout hall heff hsenders htxs =>
      by_cases hk : m = k
      · subst hk
        refine Or.inr ⟨⟨_, echoed, hcmd, hid, rfl⟩, ?_⟩
        rw [heff, hl]
        exact List.mem_singleton.mpr rfl
      · refine Or.inl ⟨?_, ?_⟩
        · rw [htxs, HashMap.lookup_erase_eq_ite, if_neg hk]
          exact hl
        · rintro ⟨x, echoed', hcmd', hid', -⟩
          obtain rfl := EchoBroadcastMessage.echo.inj (hcmd.symm.trans hcmd')
          exact absurd (Option.some.inj (hid'.symm.trans hid)) hk

/-- A task that returned from a command is alive. -/
theorem alive_of_returned {result : ConnectionResult} (hs : (machine H).step t c = some (t', e))
    (hout : e.outcome = .returned result) : ∃ a', t'.actor = some a' := by
  obtain ⟨-, -, -, ⟨-, -, hrefused, -⟩ | ⟨_, -, -, hpanicked, -⟩ | ⟨_, a', _, -, ha', -⟩⟩ :=
    step_cases hs
  · cases hout.symm.trans hrefused
  · cases hout.symm.trans hpanicked
  · exact ⟨a', ha'⟩

/-- A Send that succeeds has reached its members and nobody else, and has stored its sender. -/
theorem send_completed (hs : (machine H).step t c = some (t', e)) (ha' : t'.actor = some a')
    (hcmd : e.command = .send data members tx) (hid : data.getMessageId = some m)
    (hout : e.outcome = .returned (.ok ())) :
    (∀ x, e.Reaches m x ↔ x ∈ members.keys) ∧ a'.messageClientTxs.lookup m = some tx := by
  obtain ⟨b, -, hh⟩ := handled_cases hs ha'
  obtain ⟨k, sent, hk, -, ⟨hfailed, -⟩ | ⟨-, hreached, heff, htxs⟩⟩ := hh.of_send hcmd
  · cases hout.symm.trans hfailed
  · obtain rfl : m = k := Option.some.inj (hid.symm.trans hk)
    constructor
    · intro x
      constructor
      · intro hx
        have hr := ((Event.reaches_of_send hcmd m x).mp hx).2
        rw [heff, EchoBroadcastActor.reached_append x (by simp)] at hr
        exact (hreached x).mp hr
      · exact reaches_of_completed hcmd hid hreached heff x
    · rw [htxs, HashMap.lookup_insert_eq_ite, if_pos rfl]

/-- A Send that reaches all its members succeeds. -/
theorem returned_of_reached (hs : (machine H).step t c = some (t', e)) (ha' : t'.actor = some a')
    (hcmd : e.command = .send data members tx) (hreach : ∀ x ∈ members.keys, e.reach x = true) :
    e.outcome = .returned (.ok ()) := by
  obtain ⟨b, -, hh⟩ := handled_cases hs ha'
  obtain ⟨k, sent, -, -, ⟨-, hnot, -⟩ | ⟨hout, -⟩⟩ := hh.of_send hcmd
  · exact absurd hreach hnot
  · exact hout

/-! ## The run after the Send -/

/-- A sender stored under `m` is answered, or it is still stored, and then there is a false entry if
any Echo of `m` came by. -/
theorem waiter_of_run (hrun : (machine H).RunWith G t post t') (ha : t.actor = some a)
    (ha' : t'.actor = some a') (hl : a.messageClientTxs.lookup m = some tx)
    (hsend : ∀ e ∈ post, ¬ e.AsksSend m) :
    (∃ e ∈ post, Effect.respond tx (.ok ()) ∈ e.effects) ∨
      a'.messageClientTxs.lookup m = some tx ∧
        ((∃ e ∈ post, e.AsksEcho m) → ∃ x, a'.echo m x = some false) := by
  induction hrun generalizing a' with
  | nil =>
      obtain rfl : a = a' := Option.some.inj (ha.symm.trans ha')
      refine Or.inr ⟨hl, ?_⟩
      rintro ⟨e, he, -⟩
      cases he
  | @snoc post s s' c e hprev hs _ ih =>
      have hlast : e ∈ post ++ [e] := List.mem_append_right _ (List.mem_singleton.mpr rfl)
      obtain ⟨a₁, ha₁, hh⟩ := handled_cases hs ha'
      rcases ih ha₁ (fun e' he' => hsend e' (List.mem_append_left _ he')) with
        ⟨e', he', hans⟩ | ⟨hl₁, hfalse⟩
      · exact Or.inl ⟨e', List.mem_append_left _ he', hans⟩
      rcases waiter_step hh (hsend e hlast) hl₁ with ⟨hl₂, hnow⟩ | ⟨-, hans⟩
      · refine Or.inr ⟨hl₂, ?_⟩
        rintro ⟨e', he', hasks⟩
        by_cases hecho : e.AsksEcho m
        · exact hnow hecho
        · -- the Echo came before this step, which leaves the false entry alone
          have hold : e' ∈ post := by
            rcases List.mem_append.mp he' with hmem | hmem
            · exact hmem
            · rw [List.mem_singleton.mp hmem] at hasks
              exact absurd hasks hecho
          obtain ⟨x, hx⟩ := hfalse ⟨e', hold, hasks⟩
          refine ⟨x, ?_⟩
          rw [echo_of_unrelated hs ha₁ ha' hecho (hsend e hlast)]
          exact hx
      · exact Or.inl ⟨e, hlast, hans⟩

/-- In a run that ends alive every Echo was processed. -/
theorem echoOf_of_asks (hrun : (machine H).RunWith G t₀ tr t) (ha : t.actor = some a) {x : String}
    (he : e ∈ tr) (hasks : e.AsksEchoFrom m x) : e.EchoOf m x := by
  obtain ⟨l, r, htr⟩ := List.append_of_mem he
  rw [htr] at hrun
  obtain ⟨s, c, s', -, hs, -, hpost⟩ := hrun.around
  obtain ⟨a', ha'⟩ := alive_of_run hpost ha
  obtain ⟨b, -, hh⟩ := handled_cases hs ha'
  obtain ⟨echoed, hcmd, hid, hx⟩ := hasks
  refine ⟨echoed, hcmd, hid, hx, ?_⟩
  cases hh with
  | sendFailed hcmd' => cases hcmd.symm.trans hcmd'
  | sendCompleted hcmd' => cases hcmd.symm.trans hcmd'
  | echoAwaited _ _ hout => exact hout
  | echoCompleted _ _ hout => exact hout

/-- Nothing is answered on a sender before the Send that opens it. -/
theorem unanswered_before (hpre : (machine H).RunWith G start pre t)
    (hs : (machine H).step t c = some (t', snd)) (hcmd : snd.command = .send data members tx) :
    answers pre tx = [] := by
  have hnew : tx ∈ respondTo snd.command := by simp [hcmd, respondTo]
  obtain ⟨heq, -⟩ := mem_respondTo hs hnew
  exact ((ledger_of_run distinct_start hpre).unopened tx (Nat.le_of_eq heq.symm)).1

/-- The client of a Send is answered `Ok` once, and by a later event, if it is answered `Ok`. -/
theorem answered_iff_responds (hrun : (machine H).RunWith G start (pre ++ snd :: post) t)
    (hcmd : snd.command = .send data members tx) :
    answers (pre ++ snd :: post) tx = [.ok ()] ↔
      ∃ e ∈ post, Effect.respond tx (.ok ()) ∈ e.effects := by
  have hsnd : snd ∈ pre ++ snd :: post := List.mem_append_right _ List.mem_cons_self
  have hfate := (ledger_of_run distinct_start hrun).fate snd hsnd data members tx hcmd
  obtain ⟨s, c, s', hpre, hs, -, -⟩ := hrun.around
  constructor
  · intro hok
    have hmem : (Except.ok () : ConnectionResult) ∈ answers (pre ++ snd :: post) tx := by
      rw [hok]
      exact List.mem_singleton.mpr rfl
    obtain ⟨e, he, hans⟩ := List.mem_flatMap.mp hmem
    rcases List.mem_append.mp he with hbefore | hrest
    · have hbad : (Except.ok () : ConnectionResult) ∈ answers pre tx :=
        List.mem_flatMap.mpr ⟨e, hbefore, hans⟩
      rw [unanswered_before hpre hs hcmd] at hbad
      cases hbad
    · rcases List.mem_cons.mp hrest with rfl | hafter
      · obtain ⟨_, _, _, -, -, ⟨_, _, hecho, -⟩, -⟩ := ok_cases hs (ok_mem_answers.mp hans)
        cases hcmd.symm.trans hecho
      · exact ⟨e, hafter, ok_mem_answers.mp hans⟩
  · rintro ⟨e, he, hok⟩
    have hans : (Except.ok () : ConnectionResult) ∈ answers (pre ++ snd :: post) tx :=
      List.mem_flatMap.mpr ⟨e, List.mem_append_right _ (List.mem_cons_of_mem _ he),
        ok_mem_answers.mpr hok⟩
    cases hfate with
    | waiting _ hnone => simp [hnone] at hans
    | finished _ hsome => exact hsome
    | failed _ herr => simp [herr] at hans
    | lost _ hnone => simp [hnone] at hans

/-- An Echo by which everybody the id was sent to has been heard leaves no client unanswered. -/
theorem answered_by_echo (hrun : (machine H).RunWith G start (pre ++ snd :: (post ++ [e])) t)
    (hcmd : snd.command = .send data members tx) (hid : data.getMessageId = some m)
    (hout : snd.outcome = .returned (.ok ())) (hsend : ∀ e' ∈ post ++ [e], ¬ e'.AsksSend m)
    {y : String} (hecho : e.EchoOf m y)
    (hheard : ∀ x, ReachedIn (pre ++ [snd]) m x → Heard (pre ++ snd :: (post ++ [e])) m x) :
    ∃ e' ∈ post ++ [e], Effect.respond tx (.ok ()) ∈ e'.effects := by
  obtain ⟨s₁, c₁, s₂, -, hs₁, -, hafter⟩ := hrun.around
  obtain ⟨a₂, ha₂⟩ := alive_of_returned hs₁ hout
  obtain ⟨-, hstored⟩ := send_completed hs₁ ha₂ hcmd hid hout
  obtain ⟨s, c, -, hs, -⟩ := hafter.of_snoc
  have hasks : e.AsksEcho m := ⟨y, Event.asks_of_echoOf hecho⟩
  obtain ⟨-, -, -, -, hreturned⟩ := hecho
  obtain ⟨a', ha'⟩ := alive_of_returned hs hreturned
  rcases waiter_of_run hafter ha₂ ha' hstored hsend with hanswered | ⟨-, hfalse⟩
  · exact hanswered
  · -- a false entry is a party that was reached, by this Send or an earlier one, and not heard
    obtain ⟨x, hx⟩ := hfalse ⟨e, by simp, hasks⟩
    obtain ⟨hunheard, e₁, he₁, hreaches⟩ := (awaited_iff hrun ha' m x).mp hx
    refine absurd (hheard x ⟨e₁, ?_, hreaches⟩) hunheard
    rw [← List.singleton_append, ← List.append_assoc] at he₁
    rcases List.mem_append.mp he₁ with hearly | hlate
    · exact hearly
    · exact absurd (Event.asksSend_of_reaches hreaches) (hsend e₁ hlate)

/-- **When the client of a Send is answered.**  If no other Send of its id follows, exactly when an
Echo of the id is processed after it and everybody this Send or an earlier one of the id reached has
been heard by the end. -/
theorem answered_iff_heard (hrun : (machine H).RunWith G start (pre ++ snd :: post) t)
    (hcmd : snd.command = .send data members tx) (hid : data.getMessageId = some m)
    (hout : snd.outcome = .returned (.ok ())) (hsend : ∀ e ∈ post, ¬ e.AsksSend m) :
    answers (pre ++ snd :: post) tx = [.ok ()] ↔
      (∃ e ∈ post, ∃ x, e.EchoOf m x) ∧
        ∀ x, ReachedIn (pre ++ [snd]) m x → Heard (pre ++ snd :: post) m x := by
  rw [answered_iff_responds hrun hcmd]
  constructor
  · rintro ⟨e, he, hok⟩
    obtain ⟨p, q, rfl⟩ := List.append_of_mem he
    have htr : pre ++ snd :: (p ++ e :: q) = (pre ++ snd :: p) ++ e :: q := by simp
    obtain ⟨hecho, -, hheard⟩ := nobody_awaited_of_ok hrun htr hok
      (List.mem_append_right _ List.mem_cons_self) hcmd hid
    refine ⟨⟨e, he, hecho⟩, ?_⟩
    intro x hx
    have hearly : ReachedIn ((pre ++ snd :: p) ++ [e]) m x := hx.mono (by simp)
    have hsub : ∀ l : List (Event H), l ++ [e] ⊆ l ++ e :: q := fun l => by simp
    rw [htr]
    exact (hheard x hearly).mono (hsub _)
  · rintro ⟨hecho, hheard⟩
    -- look at the last Echo of `m` that is processed: nobody is heard after it
    obtain ⟨p, e, q, rfl, ⟨y, hy⟩, hlast⟩ := Machine.exists_last hecho
    have htr : pre ++ snd :: (p ++ e :: q) = (pre ++ snd :: (p ++ [e])) ++ q := by simp
    have hsub : p ++ [e] ⊆ p ++ e :: q := by simp
    rw [htr] at hrun
    obtain ⟨s, hupto, -⟩ := hrun.split
    have hthen : ∀ x, ReachedIn (pre ++ [snd]) m x → Heard (pre ++ snd :: (p ++ [e])) m x := by
      intro x hx
      obtain ⟨e₂, he₂, hhears⟩ := hheard x hx
      rw [htr] at he₂
      rcases List.mem_append.mp he₂ with hmem | hq
      · exact ⟨e₂, hmem, hhears⟩
      rcases hhears with hecho' | ⟨data', members', tx', hcmd', hid', -⟩
      · exact absurd ⟨x, hecho'⟩ (hlast e₂ hq)
      · exact absurd ⟨data', members', tx', hcmd', hid'⟩ (hsend e₂ (by simp [hq]))
    obtain ⟨e', he', hanswered⟩ := answered_by_echo hupto hcmd hid hout
      (fun e' he' => hsend e' (hsub he')) hy hthen
    exact ⟨e', hsub he', hanswered⟩

/-! ## One broadcast -/

/-- None of the actor's maps has an entry for `m`. -/
structure Unused (a : EchoBroadcastActor H) (m : MessageId) : Prop where
  echos : a.messageEchos.lookup m = none
  senders : a.reliableSenders.lookup m = none
  client : a.messageClientTxs.lookup m = none

/-- Under an id that no map has an entry for nobody was heard or reached. -/
theorem nothing_of_unused (hrun : (machine H).RunWith G start tr t) (ha : t.actor = some a)
    (h : Unused a m) (x : String) : ¬ Heard tr m x ∧ ¬ ReachedIn tr m x := by
  have habsent : a.echo m x = none := by simp [EchoBroadcastActor.echo, HashMap.lookup₂, h.echos]
  exact ((absent_iff hrun rfl ha m x).mp habsent).2

/-- The events `pre`, `snd`, `post` are one Send of a fresh id that reaches all its members, with an
echo from every other member before or after it. -/
structure OneBroadcast (t₀ : EchoTask H) (data : Message) (members : ReliableSenderMap H)
    (tx : Oneshot) (m : MessageId) (pre : List (Event H)) (snd : Event H)
    (post : List (Event H)) : Prop where
  fresh : ∃ a₀, t₀.actor = some a₀ ∧ Unused a₀ m
  sent : snd.command = .send data members tx
  id : data.getMessageId = some m
  other : ∃ x ∈ members.keys, x ≠ data.getSenderId
  reached : ∀ x ∈ members.keys, snd.reach x = true
  wellIdentified : ∀ e ∈ pre ++ post, e.command.wellIdentified = true
  onlySend : ∀ e ∈ pre ++ post, ¬ e.AsksSend m
  echoed : ∀ x ∈ members.keys, x ≠ data.getSenderId → ∃ e ∈ pre ++ post, e.AsksEchoFrom m x

/-! ## The broadcast completes exactly when an echo follows the Send -/

section OneBroadcast

variable (h : OneBroadcast t₀ data members tx m pre snd post)

include h in
/-- All commands of a broadcast are well identified. -/
theorem wellIdentified_of_broadcast : ∀ e ∈ pre ++ snd :: post, e.command.wellIdentified = true := by
  intro e he
  rcases List.mem_append.mp he with hpre | hrest
  · exact h.wellIdentified e (List.mem_append_left _ hpre)
  rcases List.mem_cons.mp hrest with rfl | hpost
  · obtain ⟨x, hx, -⟩ := h.other
    have hne : members.keys ≠ [] := List.ne_nil_of_mem hx
    rw [h.sent]
    simpa [EchoBroadcastMessage.wellIdentified, h.id] using hne
  · exact h.wellIdentified e (List.mem_append_right _ hpost)

include h in
/-- In a broadcast everybody its id was ever sent to is heard. -/
theorem all_heard {tr₀ : List (Event H)} (hrun₀ : (machine H).RunWith G start tr₀ t₀)
    (hrun : (machine H).RunWith G t₀ (pre ++ snd :: post) t) (ha : t.actor = some a) {x : String}
    (hx : ReachedIn (tr₀ ++ pre ++ [snd]) m x) : Heard (tr₀ ++ pre ++ snd :: post) m x := by
  obtain ⟨a₀, ha₀, hunused⟩ := h.fresh
  obtain ⟨s, c, s', -, hs, -, hpost⟩ := hrun.around
  obtain ⟨a', ha'⟩ := alive_of_run hpost ha
  have hout := returned_of_reached hs ha' h.sent h.reached
  obtain ⟨e, he, hreaches⟩ := hx
  -- the only Send of the id is `snd`
  simp only [List.mem_append, List.mem_singleton] at he
  rcases he with (hearly | hpre) | rfl
  · exact absurd ⟨e, hearly, hreaches⟩ (nothing_of_unused hrun₀ ha₀ hunused x).2
  · exact absurd (Event.asksSend_of_reaches hreaches) (h.onlySend e (List.mem_append_left _ hpre))
  by_cases hsender : data.getSenderId = x
  · exact ⟨e, by simp, (Event.hears_of_send h.sent m x).mpr ⟨hout, h.id, hsender⟩⟩
  · have hmember : x ∈ members.keys := ((send_completed hs ha' h.sent h.id hout).1 x).mp hreaches
    obtain ⟨e₁, he₁, hasks⟩ := h.echoed x hmember (Ne.symm hsender)
    have hin : e₁ ∈ pre ++ e :: post := by
      rcases List.mem_append.mp he₁ with hpre | hpost
      · exact List.mem_append_left _ hpre
      · exact List.mem_append_right _ (List.mem_cons_of_mem _ hpost)
    refine ⟨e₁, ?_, Or.inl (echoOf_of_asks hrun ha hin hasks)⟩
    rw [List.append_assoc]
    exact List.mem_append_right _ hin

end OneBroadcast

/-- **A broadcast that everybody echoed completes exactly when one of the echos follows the Send.**
From every reachable state, whatever else is processed in between. -/
theorem completes_iff (hreach : (machine H).Reachable start t₀)
    (hrun : (machine H).Run t₀ (pre ++ snd :: post) t)
    (h : OneBroadcast t₀ data members tx m pre snd post) :
    answers (pre ++ snd :: post) tx = [.ok ()] ↔ ∃ e ∈ post, e.AsksEcho m := by
  obtain ⟨tr₀, hrun₀⟩ := hreach
  obtain ⟨a₀, ha₀, -⟩ := h.fresh
  obtain ⟨a, ha⟩ := alive_run hrun ha₀ (wellIdentified_of_broadcast h)
  have hwhole : (machine H).Run start (tr₀ ++ pre ++ snd :: post) t := by
    rw [List.append_assoc]
    exact hrun₀.append hrun
  obtain ⟨s, c, s', hbefore, hs, -, hpost⟩ := hwhole.around
  obtain ⟨a', ha'⟩ := alive_of_run hpost ha
  -- nothing is answered on the sender before it is opened
  have hnone := unanswered_before hbefore hs h.sent
  rw [answers_append, List.append_eq_nil_iff] at hnone
  have hanswers : answers (tr₀ ++ pre ++ snd :: post) tx = answers (pre ++ snd :: post) tx := by
    rw [List.append_assoc, answers_append, hnone.1, List.nil_append]
  rw [← hanswers, answered_iff_heard hwhole h.sent h.id
    (returned_of_reached hs ha' h.sent h.reached)
    (fun e he => h.onlySend e (List.mem_append_right _ he))]
  constructor
  · rintro ⟨⟨e, he, x, hecho⟩, -⟩
    exact ⟨e, he, x, Event.asks_of_echoOf hecho⟩
  · rintro ⟨e, he, x, hasks⟩
    have hin : e ∈ pre ++ snd :: post := List.mem_append_right _ (List.mem_cons_of_mem _ he)
    exact ⟨⟨e, he, x, echoOf_of_asks hrun ha hin hasks⟩, fun _ => all_heard h hrun₀ hrun ha⟩

/-- The Send of `hello` to the one member, as an event. -/
def helloSent : Event Unit :=
  ⟨.send (Message.package "a" "hello" 1) onlyBob 0, fun _ => true, .returned (.ok ()),
    [.reliableSend "b" () (Message.package "a" "hello" 1) true]⟩

/-- The echo of that member, with the effects it has. -/
def helloEchoed (effects : List (Effect Unit)) : Event Unit :=
  ⟨.echo (Message.package "b" "hello" 1), fun _ => true, .returned (.ok ()), effects⟩

/-- Around `helloSent`, any echos of the one member make one broadcast. -/
theorem oneBroadcast_hello {pre post : List (Event Unit)} (hne : pre ++ post ≠ [])
    (hall : ∀ e ∈ pre ++ post, ∃ effects, e = helloEchoed effects) :
    OneBroadcast start (Message.package "a" "hello" 1) onlyBob 0 ⟨1⟩ pre helloSent post where
  fresh := ⟨.start, rfl, rfl, rfl, rfl⟩
  sent := rfl
  id := rfl
  other := ⟨"b", by decide, by decide⟩
  reached := fun _ _ => rfl
  wellIdentified := by
    intro e he
    obtain ⟨effects, rfl⟩ := hall e he
    rfl
  onlySend := by
    rintro e he ⟨data, members, tx, hcmd, -⟩
    obtain ⟨effects, rfl⟩ := hall e he
    cases hcmd
  echoed := by
    intro x hx _
    obtain ⟨e, he⟩ := List.exists_mem_of_ne_nil _ hne
    obtain ⟨effects, heq⟩ := hall e he
    obtain rfl : x = "b" := List.mem_singleton.mp hx
    refine ⟨e, he, Message.package "b" "hello" 1, ?_, rfl, rfl⟩
    rw [heq]
    rfl

/-- The broadcast whose echo follows the Send completes. -/
theorem completes_iff_sentOnce :
    answers ([] ++ helloSent :: [helloEchoed [.respond 0 (.ok ())]]) 0 = [.ok ()] ↔
      ∃ e ∈ [helloEchoed [.respond 0 (.ok ())]], e.AsksEcho ⟨1⟩ :=
  completes_iff ⟨[], .nil⟩ (run_runCalls start sentOnce)
    (oneBroadcast_hello (by simp) (by simp))

/-- The one echo of a broadcast, processed before the Send. -/
def echoedFirst : List (Call Unit) :=
  [.echo (Message.package "b" "hello" 1),
   .send (Message.package "a" "hello" 1) onlyBob fun _ => true]

/-- **An echo that overtakes the Send is not enough.**  All commands of the broadcast have been
processed, every member has echoed, and the client is not answered. -/
theorem unanswered_echoedFirst :
    ¬ ∀ (t₀ t : EchoTask Unit) (data : Message) (members : ReliableSenderMap Unit) (tx : Oneshot)
        (m : MessageId) (pre : List (Event Unit)) (snd : Event Unit) (post : List (Event Unit)),
      (machine Unit).Reachable start t₀ → (machine Unit).Run t₀ (pre ++ snd :: post) t →
        OneBroadcast t₀ data members tx m pre snd post →
        answers (pre ++ snd :: post) tx = [.ok ()] := by
  intro hcompletes
  have hanswered := hcompletes start _ _ onlyBob 0 ⟨1⟩ [helloEchoed []] helloSent []
    ⟨[], .nil⟩ (run_runCalls start echoedFirst) (oneBroadcast_hello (by simp) (by simp))
  have hnone : answers ([helloEchoed []] ++ helloSent :: []) 0 = [] := by decide
  cases hnone.symm.trans hanswered

/-! ## Who can keep a broadcast waiting -/

/-- **A Send that all its members echo is answered exactly when every outsider has been heard**,
that is, every party that is not one of its members and that an earlier Send of the id reached. -/
theorem answered_iff_outsiders_heard (hrun : (machine H).Run start (pre ++ snd :: post) t)
    (hcmd : snd.command = .send data members tx) (hid : data.getMessageId = some m)
    (hne : members.keys ≠ []) (hreach : ∀ x ∈ members.keys, snd.reach x = true)
    (hsend : ∀ e ∈ post, ¬ e.AsksSend m) (hecho : ∀ x ∈ members.keys, ∃ e ∈ post, e.EchoOf m x) :
    answers (pre ++ snd :: post) tx = [.ok ()] ↔
      ∀ x, x ∉ members.keys → ReachedIn pre m x → Heard (pre ++ snd :: post) m x := by
  obtain ⟨x₀, hx₀⟩ := List.exists_mem_of_ne_nil _ hne
  obtain ⟨e₀, he₀, hecho₀⟩ := hecho x₀ hx₀
  obtain ⟨s, c, s', -, hs, -, hpost⟩ := hrun.around
  -- an Echo is processed after the Send, so the task has survived it
  obtain ⟨a', ha'⟩ : ∃ a', s'.actor = some a' := by
    obtain ⟨p, q, rfl⟩ := List.append_of_mem he₀
    obtain ⟨s₁, c₁, s₂, hmid, hs₁, -, -⟩ := hpost.around
    obtain ⟨-, -, -, -, hout₀⟩ := hecho₀
    obtain ⟨a₂, ha₂⟩ := alive_of_returned hs₁ hout₀
    exact alive_of_run (hmid.snoc hs₁ trivial) ha₂
  have hout := returned_of_reached hs ha' hcmd hreach
  have hreaches := (send_completed hs ha' hcmd hid hout).1
  rw [answered_iff_heard hrun hcmd hid hout hsend]
  constructor
  · rintro ⟨-, hheard⟩ x - hx
    exact hheard x (hx.mono (List.subset_append_left _ _))
  · intro hheard
    refine ⟨⟨e₀, he₀, x₀, hecho₀⟩, ?_⟩
    intro x hx
    by_cases hmember : x ∈ members.keys
    · obtain ⟨e, he, hechoed⟩ := hecho x hmember
      exact ⟨e, List.mem_append_right _ (List.mem_cons_of_mem _ he), Or.inl hechoed⟩
    · rcases reachedIn_snoc.mp hx with hearly | hnow
      · exact hheard x hmember hearly
      · exact absurd ((hreaches x).mp hnow) hmember

/-- A membership of one, without the member that was there before. -/
def onlyCarol : ReliableSenderMap Unit := (∅ : ReliableSenderMap Unit).insert "c" ()

/-- A Send that reaches one of two members and fails, the same Send to the other member alone once
the first has left, and the echo of that member. -/
def resentWithoutBob : List (Call Unit) :=
  [.send (Message.package "a" "hello" 1) carolAndBob fun x => decide (x = "b"),
   .send (Message.package "a" "hello" 1) onlyCarol fun _ => true,
   .echo (Message.package "c" "hello" 1)]

/-- The same calls, and at last the echo of the member that has left. -/
def heardOutsider : List (Call Unit) :=
  resentWithoutBob ++ [.echo (Message.package "b" "hello" 1)]

/-- A party that an earlier Send of the id reached is no member of this one and echoes last: its echo
is what the client has waited for. -/
theorem answered_iff_outsiders_heard_heardOutsider :
    ReachedIn ((runCalls start heardOutsider).2.take 1) ⟨1⟩ "b" ∧ "b" ∉ onlyCarol.keys ∧
      answers (runCalls start heardOutsider).2 1 = [.ok ()] ∧
      (answers (runCalls start heardOutsider).2 1 = [.ok ()] ↔
        ∀ x, x ∉ onlyCarol.keys → ReachedIn ((runCalls start heardOutsider).2.take 1) ⟨1⟩ x →
          Heard (runCalls start heardOutsider).2 ⟨1⟩ x) := by
  refine ⟨⟨_, List.mem_singleton_self _, _, _, _, rfl, rfl, (), Message.package "a" "hello" 1,
    by decide⟩, by decide, by decide, ?_⟩
  have hrun : (machine Unit).Run start ((runCalls start heardOutsider).2.take 1 ++
      _ :: (runCalls start heardOutsider).2.drop 2) _ := run_runCalls start heardOutsider
  refine answered_iff_outsiders_heard hrun rfl rfl (by decide) (fun _ _ => rfl) ?_ ?_
  · rintro e he ⟨data, members, tx, hcmd, -⟩
    rcases List.mem_pair.mp he with rfl | rfl <;> cases hcmd
  · intro x hx
    obtain rfl : x = "c" := List.mem_singleton.mp hx
    exact ⟨_, List.mem_cons_self, Message.package "c" "hello" 1, rfl, rfl, rfl, rfl⟩

/-- **A party that is not a member keeps a broadcast waiting.**  The only member of the second Send
has echoed, and its client is not answered. -/
theorem unanswered_resentWithoutBob :
    ¬ ∀ (pre : List (Event Unit)) (snd : Event Unit) (post : List (Event Unit)) (t : EchoTask Unit)
        (data : Message) (members : ReliableSenderMap Unit) (tx : Oneshot) (m : MessageId),
      (machine Unit).Run start (pre ++ snd :: post) t → snd.command = .send data members tx →
        data.getMessageId = some m → members.keys ≠ [] →
        (∀ x ∈ members.keys, snd.reach x = true) →
        (∀ e ∈ post, ∃ echoed, e.command = .echo echoed) →
        (∀ x ∈ members.keys, ∃ e ∈ post, e.EchoOf m x) →
        answers (pre ++ snd :: post) tx = [.ok ()] := by
  intro hanswered
  have hnone : answers (runCalls start resentWithoutBob).2 1 = [] := by decide
  have hsome := hanswered ((runCalls start resentWithoutBob).2.take 1) _
    ((runCalls start resentWithoutBob).2.drop 2) _ _ onlyCarol 1 ⟨1⟩
    (run_runCalls start resentWithoutBob) rfl rfl (by decide) (fun _ _ => rfl) ?_ ?_
  · cases hnone.symm.trans hsome
  · intro e he
    obtain rfl := List.mem_singleton.mp he
    exact ⟨_, rfl⟩
  · intro x hx
    obtain rfl : x = "c" := List.mem_singleton.mp hx
    exact ⟨_, List.mem_singleton.mpr rfl, Message.package "c" "hello" 1, rfl, rfl, rfl, rfl⟩

/-! ## The exact completion point -/

/-- Every member but the sender has sent an Echo of `m` in these events. -/
def EchoedByAll (members : ReliableSenderMap H) (sender : String) (m : MessageId)
    (tr : List (Event H)) : Prop :=
  ∀ x ∈ members.keys, x ≠ sender → ∃ e ∈ tr, e.AsksEchoFrom m x

/-- After the events `pre`, the event `e` is the first Echo of `m` after which every member but the
sender has sent an Echo of `m`. -/
structure CompletesAt (members : ReliableSenderMap H) (sender : String) (m : MessageId)
    (pre : List (Event H)) (e : Event H) : Prop where
  echo : e.AsksEcho m
  all : EchoedByAll members sender m (pre ++ [e])
  first : ∀ p e' q, pre = p ++ e' :: q → e'.AsksEcho m → ¬ EchoedByAll members sender m (p ++ [e'])

/-- There was such an Echo among these events. -/
def Complete (members : ReliableSenderMap H) (sender : String) (m : MessageId)
    (tr : List (Event H)) : Prop :=
  (∃ e ∈ tr, e.AsksEcho m) ∧ EchoedByAll members sender m tr

section Complete

variable {sender : String}

theorem EchoedByAll.mono {tr' : List (Event H)} (h : EchoedByAll members sender m tr)
    (hsub : tr ⊆ tr') : EchoedByAll members sender m tr' := by
  intro x hx hne
  obtain ⟨e, he, hasks⟩ := h x hx hne
  exact ⟨e, hsub he, hasks⟩

theorem Complete.mono {tr' : List (Event H)} (h : Complete members sender m tr)
    (hsub : tr ⊆ tr') : Complete members sender m tr' := by
  obtain ⟨⟨e, he, hasks⟩, hall⟩ := h
  exact ⟨⟨e, hsub he, hasks⟩, hall.mono hsub⟩

theorem not_complete_nil : ¬ Complete members sender m ([] : List (Event H)) := by
  rintro ⟨⟨e, he, -⟩, -⟩
  cases he

/-- The completion point is the event with which the broadcast becomes complete. -/
theorem completesAt_iff : CompletesAt members sender m pre e ↔
    Complete members sender m (pre ++ [e]) ∧ ¬ Complete members sender m pre := by
  constructor
  · intro h
    refine ⟨⟨⟨e, by simp, h.echo⟩, h.all⟩, ?_⟩
    rintro ⟨hecho, hall⟩
    -- everybody had echoed at the last Echo of `pre` already
    obtain ⟨p, e', q, rfl, hasks, hlast⟩ := Machine.exists_last hecho
    refine h.first p e' q rfl hasks ?_
    intro x hx hne
    obtain ⟨e₁, he₁, hfrom⟩ := hall x hx hne
    refine ⟨e₁, ?_, hfrom⟩
    rw [← List.singleton_append, ← List.append_assoc] at he₁
    rcases List.mem_append.mp he₁ with hearly | hlate
    · exact hearly
    · exact absurd ⟨x, hfrom⟩ (hlast e₁ hlate)
  · rintro ⟨⟨hecho, hall⟩, hbefore⟩
    have hasks : e.AsksEcho m := by
      by_contra hnot
      have hold : ∀ e' ∈ pre ++ [e], e'.AsksEcho m → e' ∈ pre := by
        intro e' he' hasks
        rcases List.mem_append.mp he' with hmem | hmem
        · exact hmem
        · rw [List.mem_singleton.mp hmem] at hasks
          exact absurd hasks hnot
      obtain ⟨e', he', hasks⟩ := hecho
      refine hbefore ⟨⟨e', hold e' he' hasks, hasks⟩, ?_⟩
      intro x hx hne
      obtain ⟨e₁, he₁, hfrom⟩ := hall x hx hne
      exact ⟨e₁, hold e₁ he₁ ⟨x, hfrom⟩, hfrom⟩
    refine ⟨hasks, hall, ?_⟩
    rintro p e' q rfl hasks' hall'
    refine hbefore (Complete.mono ⟨⟨e', by simp, hasks'⟩, hall'⟩ ?_)
    simp

end Complete

section CompletionPoint

variable {tr₀ : List (Event H)} {t₁ : EchoTask H} (hrun₀ : (machine H).Run start tr₀ t₀)
  (ha₀ : t₀.actor = some a₀) (hunused : Unused a₀ m)
  (hs : (machine H).step t₀ c = some (t₁, snd)) (hcmd : snd.command = .send data members tx)
  (hid : data.getMessageId = some m) (hout : snd.outcome = .returned (.ok ()))
  (hrun : (machine H).Run t₁ post t) (hsend : ∀ e ∈ post, ¬ e.AsksSend m)

include hrun₀ hs hrun in
theorem run_whole : (machine H).Run start (tr₀ ++ snd :: post) t := by
  have h := (hrun₀.snoc hs trivial).append hrun
  rwa [List.append_assoc, List.singleton_append] at h

include hrun₀ ha₀ hunused hs hcmd hid hout hrun hsend in
/-- After a Send of an unused id, its client has been answered exactly when the broadcast is
complete. -/
theorem answered_iff_complete (ha : t.actor = some a) :
    answers (tr₀ ++ snd :: post) tx = [.ok ()] ↔
      Complete members data.getSenderId m post := by
  obtain ⟨a₁, ha₁⟩ := alive_of_returned hs hout
  have hreaches := (send_completed hs ha₁ hcmd hid hout).1
  have hnothing := nothing_of_unused hrun₀ ha₀ hunused
  rw [answered_iff_heard (run_whole hrun₀ hs hrun) hcmd hid hout hsend]
  constructor
  · rintro ⟨⟨e, he, x, hecho⟩, hheard⟩
    refine ⟨⟨e, he, x, Event.asks_of_echoOf hecho⟩, ?_⟩
    intro y hy hne
    obtain ⟨e₁, he₁, hhears⟩ :=
      hheard y (reachedIn_snoc.mpr (Or.inr ((hreaches y).mpr hy)))
    -- a member other than the sender is heard only by an Echo after the Send
    rcases List.mem_append.mp he₁ with hearly | hrest
    · exact absurd ⟨e₁, hearly, hhears⟩ (hnothing y).1
    rcases List.mem_cons.mp hrest with rfl | hlate
    · exact absurd ((Event.hears_of_send hcmd m y).mp hhears).2.2.symm hne
    rcases hhears with hecho' | ⟨data', members', tx', hcmd', hid', -⟩
    · exact ⟨e₁, hlate, Event.asks_of_echoOf hecho'⟩
    · exact absurd ⟨data', members', tx', hcmd', hid'⟩ (hsend e₁ hlate)
  · rintro ⟨⟨e, he, x, hasks⟩, hall⟩
    refine ⟨⟨e, he, x, echoOf_of_asks hrun ha he hasks⟩, ?_⟩
    intro y hy
    rcases reachedIn_snoc.mp hy with hearly | hnow
    · exact absurd hearly (hnothing y).2
    by_cases hne : y = data.getSenderId
    · exact ⟨snd, by simp, (Event.hears_of_send hcmd m y).mpr ⟨hout, hid, hne.symm⟩⟩
    · obtain ⟨e₁, he₁, hfrom⟩ := hall y ((hreaches y).mp hnow) hne
      exact ⟨e₁, by simp [he₁], Or.inl (echoOf_of_asks hrun ha he₁ hfrom)⟩

include hrun₀ hs hcmd hid hout hrun hsend in
/-- A client that is not answered `Ok` is not answered at all. -/
theorem answered_or_unanswered (ha : t.actor = some a) :
    answers (tr₀ ++ snd :: post) tx = [.ok ()] ∨ answers (tr₀ ++ snd :: post) tx = [] := by
  have hwhole := run_whole hrun₀ hs hrun
  obtain ⟨a₁, ha₁⟩ := alive_of_returned hs hout
  rcases waiter_of_run hrun ha₁ ha (send_completed hs ha₁ hcmd hid hout).2 hsend with
    hresponds | ⟨hl, -⟩
  · exact Or.inl ((answered_iff_responds hwhole hcmd).mpr hresponds)
  · have hstored : Stored t tx := ⟨a, m, ha, hl⟩
    cases (ledger_of_run distinct_start hwhole).fate snd (by simp) data members tx hcmd with
    | waiting _ hnone => exact Or.inr hnone
    | finished hnot => exact absurd hstored hnot
    | failed hnot => exact absurd hstored hnot
    | lost hnot => exact absurd hstored hnot

/-- **The exact completion point.**  After a successful Send of an unused id, among any well
identified commands of which none is another Send of the id, the client is answered `Ok` exactly
once, at the first Echo of the id after which every member but the sender has sent one; if there is
no such Echo it is not answered at all. -/
theorem answered_at_completion (hrun₀ : (machine H).Run start tr₀ t₀) (ha₀ : t₀.actor = some a₀)
    (hunused : Unused a₀ m) (hs : (machine H).step t₀ c = some (t₁, snd))
    (hcmd : snd.command = .send data members tx) (hid : data.getMessageId = some m)
    (hout : snd.outcome = .returned (.ok ())) (hrun : (machine H).Run t₁ post t)
    (hwell : ∀ e ∈ post, e.command.wellIdentified = true) (hsend : ∀ e ∈ post, ¬ e.AsksSend m) :
    (∀ p e q, post = p ++ e :: q → CompletesAt members data.getSenderId m p e →
        e.answers tx = [.ok ()] ∧ answers (tr₀ ++ snd :: post) tx = [.ok ()]) ∧
      ((∀ p e q, post = p ++ e :: q → ¬ CompletesAt members data.getSenderId m p e) →
        answers (tr₀ ++ snd :: post) tx = []) := by
  obtain ⟨a₁, ha₁⟩ := alive_of_returned hs hout
  -- after every part of the later commands: answered exactly if complete, and once at most
  have hpart : ∀ p, (∃ q, post = p ++ q) →
      (answers (tr₀ ++ snd :: p) tx = [.ok ()] ↔ Complete members data.getSenderId m p) ∧
        (answers (tr₀ ++ snd :: p) tx = [.ok ()] ∨ answers (tr₀ ++ snd :: p) tx = []) := by
    rintro p ⟨q, rfl⟩
    obtain ⟨s, hp, -⟩ := hrun.split
    have hquiet : ∀ e ∈ p, ¬ e.AsksSend m := fun e he => hsend e (List.mem_append_left _ he)
    obtain ⟨a, ha⟩ := alive_run hp ha₁ fun e he => hwell e (List.mem_append_left _ he)
    exact ⟨answered_iff_complete hrun₀ ha₀ hunused hs hcmd hid hout hp hquiet ha,
      answered_or_unanswered hrun₀ hs hcmd hid hout hp hquiet ha⟩
  obtain ⟨hall, honce⟩ := hpart post ⟨[], by simp⟩
  constructor
  · intro p e q hpost hat
    obtain ⟨hnow, hbefore⟩ := completesAt_iff.mp hat
    have hafter := (hpart (p ++ [e]) ⟨q, by simp [hpost]⟩).1.mpr hnow
    have hnone : answers (tr₀ ++ snd :: p) tx = [] := by
      obtain ⟨hiff, hor⟩ := hpart p ⟨e :: q, hpost⟩
      exact hor.resolve_left fun hok => hbefore (hiff.mp hok)
    refine ⟨?_, hall.mpr (hnow.mono ?_)⟩
    · rw [← List.cons_append, ← List.append_assoc, answers_snoc, hnone, List.nil_append] at hafter
      exact hafter
    · rw [hpost]
      simp
  · intro hnever
    refine honce.resolve_left fun hok => ?_
    obtain ⟨p, e, q, hpost, hat⟩ := Machine.exists_first not_complete_nil (hall.mp hok)
    exact hnever p e q hpost (completesAt_iff.mpr hat)

end CompletionPoint

/-- An echo of another broadcast, a Send to two members, two echoes of the one member and then the echo
of the other. -/
def echoedTwiceThenBoth : List (Call Unit) :=
  [.echo (Message.package "d" "hi" 2),
   .send (Message.package "a" "hello" 1) carolAndBob fun _ => true,
   .echo (Message.package "c" "hello" 1), .echo (Message.package "c" "hello" 1),
   .echo (Message.package "b" "hello" 1)]

/-- The echo of the member that is heard last is the completion point, however often the other one has
echoed before it. -/
theorem answered_at_completion_echoedTwiceThenBoth :
    CompletesAt carolAndBob "a" ⟨1⟩ (((runCalls start echoedTwiceThenBoth).2.drop 2).take 2)
        (helloEchoed [.respond 0 (.ok ())]) ∧
      (helloEchoed [.respond 0 (.ok ())]).answers 0 = [.ok ()] ∧
      answers (runCalls start echoedTwiceThenBoth).2 0 = [.ok ()] := by
  have hcarol : ∀ e ∈ ((runCalls start echoedTwiceThenBoth).2.drop 2).take 2,
      e.command = .echo (Message.package "c" "hello" 1) := by
    intro e he
    rcases List.mem_pair.mp he with rfl | rfl <;> rfl
  have hechoes : ∀ e ∈ (runCalls start echoedTwiceThenBoth).2.drop 2,
      ∃ x, e.command = .echo (Message.package x "hello" 1) := by
    intro e he
    rcases List.mem_cons.mp he with rfl | he
    · exact ⟨"c", rfl⟩
    · rcases List.mem_pair.mp he with rfl | rfl
      · exact ⟨"c", rfl⟩
      · exact ⟨"b", rfl⟩
  have hat : CompletesAt carolAndBob "a" ⟨1⟩ (((runCalls start echoedTwiceThenBoth).2.drop 2).take 2)
      (helloEchoed [.respond 0 (.ok ())]) := by
    refine completesAt_iff.mpr ⟨⟨⟨_, List.mem_append_right _ (List.mem_singleton_self _), "b",
      Message.package "b" "hello" 1, rfl, rfl, rfl⟩, ?_⟩, ?_⟩
    · intro x hx _
      rcases List.mem_pair.mp hx with rfl | rfl
      · exact ⟨_, List.mem_append_right _ (List.mem_singleton_self _),
          Message.package "b" "hello" 1, rfl, rfl, rfl⟩
      · exact ⟨_, List.mem_cons_self, Message.package "c" "hello" 1, rfl, rfl, rfl⟩
    · -- the other member has not echoed before
      rintro ⟨-, hall⟩
      obtain ⟨e, he, echoed, hcmd, -, hfrom⟩ := hall "b" (by decide) (by decide)
      rw [hcarol e he] at hcmd
      obtain rfl := EchoBroadcastMessage.echo.inj hcmd
      exact absurd hfrom (by decide)
  refine ⟨hat, (answered_at_completion
    (c := .send (Message.package "a" "hello" 1) carolAndBob fun _ => true)
    (run_runCalls start (echoedTwiceThenBoth.take 1)) rfl ⟨rfl, rfl, rfl⟩ rfl rfl rfl rfl
    (run_runCalls _ (echoedTwiceThenBoth.drop 2)) ?_ ?_).1 _ _ [] rfl hat⟩
  · intro e he
    obtain ⟨x, hcmd⟩ := hechoes e he
    rw [hcmd]
    rfl
  · rintro e he ⟨data, members, tx, hsend, -⟩
    obtain ⟨x, hcmd⟩ := hechoes e he
    cases hcmd.symm.trans hsend

end EchoTask

end FrostFederation.EchoBroadcast
