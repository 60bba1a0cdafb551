/-
# FrostFederation.EchoBroadcast.Safety — what an `Ok` from a broadcast means.

When the client of a Send is answered `Ok`, every member of that Send has been heard: it is the
sender, or the sender of an earlier successful Send with the same id, or an Echo with the id and its
sender id was processed.  The argument ties the two maps to the events: a stored
sender goes back to the Send that stored it, all of whose members were reached (`stored_origin`); an
`Ok` is given only when nothing in the entry of the id is false (`ok_cases`); and a reached party
whose entry is true was heard.

What an `Ok` does NOT mean is that the members heard the same payload: the record holds pairs of a
message id and a sender id, and the payload of an echo is never looked at.  Agreement on the content
holds in the runs in which no echo of the id carries another payload, and fails outside them.
-/
import FrostFederation.EchoBroadcast.Waiters

namespace FrostFederation.EchoBroadcast

open FrostFederation.Lib
open FrostFederation.Protocol

namespace EchoTask

variable {H : Type} {G : EchoTask H → Event H → Prop} {t₀ t t' : EchoTask H} {c : Call H}
  {e e₀ : Event H} {a₀ a a' : EchoBroadcastActor H} {tr pre post : List (Event H)}
  {data : Message} {members : ReliableSenderMap H} {m : MessageId} {tx : Oneshot}

/-! ## Where stored senders come from and when they are answered -/

/-- A completed Send reached all its members. -/
theorem reaches_of_completed {sent : List (Effect H)} (hcmd : e.command = .send data members tx)
    (hm : data.getMessageId = some m)
    (hreached : ∀ x, EchoBroadcastActor.Reached sent x ↔ x ∈ members.keys)
    (heff : e.effects = sent ++ ((a.messageClientTxs.lookup m).map Effect.drop).toList) :
    ∀ x ∈ members.keys, e.Reaches m x := by
  intro x hx
  obtain ⟨handle, data', hmem⟩ := (hreached x).mpr hx
  refine (Event.reaches_of_send hcmd m x).mpr ⟨hm, handle, data', ?_⟩
  rw [heff]
  exact List.mem_append_left _ hmem

/-- A sender stored under `m` was there at the start of the run, or a successful Send of `m` in the
run stored it, and reached all its members. -/
theorem stored_origin (hrun : (machine H).RunWith G t₀ tr t) (ha₀ : t₀.actor = some a₀)
    (ha : t.actor = some a) (hl : a.messageClientTxs.lookup m = some tx) :
    a₀.messageClientTxs.lookup m = some tx ∨
      ∃ e ∈ tr, ∃ data members, e.command = .send data members tx ∧
        data.getMessageId = some m ∧ ∀ x ∈ members.keys, e.Reaches m x := by
  induction hrun generalizing a with
  | nil =>
      obtain rfl : a₀ = a := Option.some.inj (ha₀.symm.trans ha)
      exact Or.inl hl
  | @snoc tr s s' c e hprev hs _ ih =>
      obtain ⟨a₁, ha₁, hh⟩ := handled_cases hs ha
      -- what was stored before the step keeps its origin
      have hkeep : a₁.messageClientTxs.lookup m = some tx → a₀.messageClientTxs.lookup m = some tx ∨
          ∃ e' ∈ tr ++ [e], ∃ data members, e'.command = .send data members tx ∧
            data.getMessageId = some m ∧ ∀ x ∈ members.keys, e'.Reaches m x := by
        intro hl₁
        rcases ih ha₁ hl₁ with hstart | ⟨e', he', horigin⟩
        · exact Or.inl hstart
        · exact Or.inr ⟨e', List.mem_append_left _ he', horigin⟩
      cases hh with
      | sendFailed hcmd hid hout hsent hreach hfail heff hsenders htxs =>
          rw [htxs] at hl
          exact hkeep hl
      | @sendCompleted data members tx₀ m₀ sent hcmd hid hout hsent hreach hreached heff hsenders
          htxs =>
          rw [htxs, HashMap.lookup_insert_eq_ite] at hl
          split at hl
          · next heq =>
              subst heq
              obtain rfl := Option.some.inj hl
              exact Or.inr ⟨e, by simp, data, members, hcmd, hid,
                reaches_of_completed hcmd hid hreached heff⟩
          · exact hkeep hl
      | echoAwaited hcmd hid hout hmissing heff hsenders htxs =>
          rw [htxs] at hl
          exact hkeep hl
      | echoCompleted hcmd hid hout hall heff hsenders htxs =>
          rw [htxs, HashMap.lookup_erase_eq_ite] at hl
          split at hl
          · cases hl
          · exact hkeep hl

/-- An `Ok` is given by an Echo, to the sender stored under its id, when nothing in the entry of
that id is false. -/
theorem ok_cases (hs : (machine H).step t c = some (t', e))
    (hok : Effect.respond tx (.ok ()) ∈ e.effects) :
    ∃ a a' m, t.actor = some a ∧ t'.actor = some a' ∧ (∃ x, e.EchoOf m x) ∧
      a.messageClientTxs.lookup m = some tx ∧ ∀ x, a'.echo m x ≠ some false := by
  have hans : (Except.ok () : ConnectionResult) ∈ e.answers tx := ok_mem_answers.mpr hok
  cases hlive : t'.actor with
  | none =>
      rw [(effects_of_dead hs hlive tx).1] at hans
      cases hans
  | some a' =>
      obtain ⟨a, ha, hh⟩ := handled_cases hs hlive
      cases hh with
      | sendFailed hcmd hid hout hsent hreach hfail heff =>
          rw [Event.answers, heff, List.filterMap_append, answers_of_onlySends hsent tx,
            List.nil_append] at hans
          obtain ⟨effect, hmem, heq⟩ := List.mem_filterMap.mp hans
          obtain rfl := List.mem_singleton.mp hmem
          simp only [Effect.answer?] at heq
          split at heq <;> cases heq
      | @sendCompleted data members tx₀ m₀ sent hcmd hid hout hsent hreach hreached heff =>
          rw [Event.answers, heff, List.filterMap_append, answers_of_onlySends hsent tx,
            List.nil_append] at hans
          cases hlook : a.messageClientTxs.lookup m₀ <;> simp [hlook, Effect.answer?] at hans
      | echoAwaited hcmd hid hout hmissing heff =>
          rw [Event.answers, heff] at hans
          cases hans
      | @echoCompleted data m hcmd hid hout hall heff =>
          refine ⟨a, a', m, ha, rfl, ⟨_, data, hcmd, hid, rfl, hout⟩, ?_, hall⟩
          rw [Event.answers, heff] at hans
          cases hlook : a.messageClientTxs.lookup m with
          | none => simp [hlook] at hans
          | some tx₁ =>
              by_cases heq : tx₁ = tx
              · rw [heq]
              · simp [hlook, Effect.answer?, heq] at hans

/-! ## Every member has been heard -/

/-- When the client of a Send of `m` is answered `Ok`, the answering command is an Echo of `m`, the
Send has reached its members, and everybody reached under `m` has been heard. -/
theorem nobody_awaited_of_ok (hrun : (machine H).RunWith G start tr t)
    (htr : tr = pre ++ e :: post) (hok : Effect.respond tx (.ok ()) ∈ e.effects) (he₀ : e₀ ∈ tr)
    (hcmd₀ : e₀.command = .send data members tx) (hm : data.getMessageId = some m) :
    (∃ x, e.EchoOf m x) ∧ (∀ x ∈ members.keys, ReachedIn pre m x) ∧
      ∀ x, ReachedIn (pre ++ [e]) m x → Heard (pre ++ [e]) m x := by
  have hledger := ledger_of_run distinct_start hrun.run
  rw [htr] at hrun
  obtain ⟨s, c, s', hpre, hs, hG, -⟩ := hrun.around
  obtain ⟨a, a', k, ha, ha', hecho, hl, hall⟩ := ok_cases hs hok
  -- the sender that is answered was stored by the Send of `data`, since no two Sends share one
  obtain hstart | ⟨e₂, he₂, data₂, members₂, hcmd₂, hid₂, hreaches⟩ :=
    stored_origin hpre rfl ha hl
  · cases hstart
  have he₂tr : e₂ ∈ tr := by
    rw [htr]
    exact List.mem_append_left _ he₂
  have hsame : e₂ = e₀ := hledger.unique e₂ he₂tr e₀ he₀ tx (by simp [hcmd₂, respondTo])
    (by simp [hcmd₀, respondTo])
  rw [hsame, hcmd₀] at hcmd₂
  obtain ⟨rfl, rfl, -⟩ := EchoBroadcastMessage.send.inj hcmd₂
  obtain rfl : m = k := Option.some.inj (hm.symm.trans hid₂)
  refine ⟨hecho, fun x hx => ⟨e₂, he₂, hreaches x hx⟩, ?_⟩
  intro x hx
  by_contra hunheard
  exact hall x ((awaited_iff (hpre.snoc hs hG) ha' m x).mpr ⟨hunheard, hx⟩)

/-- When the client of a Send is answered `Ok`, the answering command is an Echo and every member of
the Send has been heard. -/
theorem heard_of_ok (hrun : (machine H).RunWith G start tr t) (htr : tr = pre ++ e :: post)
    (hok : Effect.respond tx (.ok ()) ∈ e.effects) (he₀ : e₀ ∈ tr)
    (hcmd₀ : e₀.command = .send data members tx) (hm : data.getMessageId = some m) :
    (∃ echoed, e.command = .echo echoed) ∧ ∀ x ∈ members.keys, Heard (pre ++ [e]) m x := by
  obtain ⟨⟨y, echoed, hcmd, -⟩, hreached, hheard⟩ :=
    nobody_awaited_of_ok hrun htr hok he₀ hcmd₀ hm
  refine ⟨⟨echoed, hcmd⟩, ?_⟩
  intro x hx
  exact hheard x (reachedIn_snoc.mpr (Or.inl (hreached x hx)))

/-- **Echo-broadcast safety.**  Along every run of the task, when the client of a Send of `data`
under id `m` to `members` is answered `Ok`, every member is the sender of `data`, or the sender of
an earlier successful Send of `m`, or the sender of an Echo of `m` processed by then. -/
theorem all_heard_of_ok (hrun : (machine H).Run start tr t) (htr : tr = pre ++ e :: post)
    (hok : Effect.respond tx (.ok ()) ∈ e.effects) (he₀ : e₀ ∈ tr)
    (hcmd₀ : e₀.command = .send data members tx) (hm : data.getMessageId = some m) :
    ∀ x ∈ members.keys,
      x = data.getSenderId ∨ (∃ e₁ ∈ pre, e₁.SendOf m x) ∨ ∃ e₁ ∈ pre ++ [e], e₁.EchoOf m x := by
  intro x hx
  obtain ⟨⟨echoed, hcmd⟩, hheard⟩ := heard_of_ok hrun htr hok he₀ hcmd₀ hm
  obtain ⟨e₁, he₁, hecho | hsend⟩ := hheard x hx
  · exact Or.inr (Or.inr ⟨e₁, he₁, hecho⟩)
  · refine Or.inr (Or.inl ⟨e₁, ?_, hsend⟩)
    rcases List.mem_append.mp he₁ with hold | hlast
    · exact hold
    · -- the last event is an Echo, not a Send
      obtain rfl := List.mem_singleton.mp hlast
      obtain ⟨data', members', tx', hcmd', -⟩ := hsend
      cases hcmd.symm.trans hcmd'

/-- A membership of two. -/
def bobAndCarol : ReliableSenderMap Unit := onlyBob.insert "c" ()

/-- A broadcast to two members and both their echos. -/
def echoedByBoth : List (Call Unit) :=
  [.send (Message.package "localhost" "round one package" 1) bobAndCarol fun _ => true,
   .echo (Message.package "b" "round one package" 1),
   .echo (Message.package "c" "round one package" 1)]

/-- The second echo answers the client of the broadcast, and the first member has been heard. -/
theorem all_heard_of_ok_echoedByBoth :
    "b" ∈ bobAndCarol.keys ∧
      ("b" = "localhost" ∨
        (∃ e₁ ∈ (runCalls start echoedByBoth).2.take 2, e₁.SendOf ⟨1⟩ "b") ∨
        ∃ e₁ ∈ (runCalls start echoedByBoth).2.take 2 ++
          [⟨.echo (Message.package "c" "round one package" 1), fun _ => true, .returned (.ok ()),
            [.respond 0 (.ok ())]⟩], e₁.EchoOf ⟨1⟩ "b") := by
  have hmem : "b" ∈ bobAndCarol.keys := by decide
  exact ⟨hmem, all_heard_of_ok (run_runCalls start echoedByBoth) rfl (by decide)
    List.mem_cons_self rfl rfl "b" hmem⟩

/-! ## Agreement on the content -/

/-- An Echo with message id `m` and sender id `x` that carries the payload of `data` was
processed. -/
def Echoes (e : Event H) (m : MessageId) (x : String) (data : Message) : Prop :=
  ∃ echoed, e.command = .echo echoed ∧ echoed.getMessageId = some m ∧ echoed.getSenderId = x ∧
    e.outcome = .returned (.ok ()) ∧ echoed.payload = data.payload

/-- Agreement on the content of `data`, sent under an id no other Send uses: when its client is
answered `Ok`, every member but the sender has echoed the payload of `data`. -/
def AgreesOnContent (tr : List (Event H)) (data : Message) : Prop :=
  ∀ pre e post e₀ members tx m, tr = pre ++ e :: post →
    Effect.respond tx (.ok ()) ∈ e.effects → e₀ ∈ tr → e₀.command = .send data members tx →
    data.getMessageId = some m →
    (∀ e' ∈ tr, ∀ data' members' tx', e'.command = .send data' members' tx' →
      data'.getMessageId = some m → tx' = tx) →
    ∀ x ∈ members.keys, x ≠ data.getSenderId → ∃ e₁ ∈ pre ++ [e], Echoes e₁ m x data

/-- An Echo with the message id of `data` carries the payload of `data`. -/
def EchoesPayload (data : Message) (e : Event H) : Prop :=
  ∀ echoed, e.command = .echo echoed → echoed.getMessageId = data.getMessageId →
    echoed.payload = data.payload

/-- **The members agree on the content in every run whose Echos of the id all carry the payload that
was sent.** -/
theorem agreesOnContent_of_echoesPayload
    (hrun : (machine H).RunWith (fun _ e => EchoesPayload data e) start tr t) :
    AgreesOnContent tr data := by
  intro pre e post e₀ members tx m htr hok he₀ hcmd₀ hm hfresh x hx hne
  have hmem : ∀ {e₁}, e₁ ∈ pre ++ [e] → e₁ ∈ tr := by
    intro e₁ he₁
    rw [htr, ← List.singleton_append, ← List.append_assoc]
    exact List.mem_append_left _ he₁
  obtain ⟨e₁, he₁, hecho | hsend⟩ := (heard_of_ok hrun htr hok he₀ hcmd₀ hm).2 x hx
  · obtain ⟨echoed, hcmd₁, hid₁, hx₁, hout₁⟩ := hecho
    refine ⟨e₁, he₁, echoed, hcmd₁, hid₁, hx₁, hout₁, ?_⟩
    exact hrun.forall_guard e₁ (hmem he₁) echoed hcmd₁ (hid₁.trans hm.symm)
  · -- a successful Send of `m` is the Send of `data` itself, so `x` is its sender
    obtain ⟨data₁, members₁, tx₁, hcmd₁, hid₁, hx₁, -⟩ := hsend
    have htx : tx₁ = tx := hfresh e₁ (hmem he₁) data₁ members₁ tx₁ hcmd₁ hid₁
    subst htx
    have hsame : e₁ = e₀ := (ledger_of_run distinct_start hrun.run).unique e₁ (hmem he₁) e₀ he₀ tx₁
      (by simp [hcmd₁, respondTo]) (by simp [hcmd₀, respondTo])
    rw [hsame, hcmd₀] at hcmd₁
    obtain ⟨rfl, -, -⟩ := EchoBroadcastMessage.send.inj hcmd₁
    exact absurd hx₁.symm hne

/-- Both members echo what was sent, and the client is answered `Ok`. -/
theorem agreesOnContent_echoedByBoth :
    AgreesOnContent (runCalls start echoedByBoth).2
        (Message.package "localhost" "round one package" 1) ∧
      ∃ e ∈ (runCalls start echoedByBoth).2, Effect.respond 0 (.ok ()) ∈ e.effects := by
  refine ⟨agreesOnContent_of_echoesPayload
    (Machine.RunWith.guarded (run_runCalls start echoedByBoth) ?_), ?_⟩
  · intro e he echoed hcmd _
    have hthree : e.command = .send (Message.package "localhost" "round one package" 1)
          bobAndCarol 0 ∨
        e.command = .echo (Message.package "b" "round one package" 1) ∨
        e.command = .echo (Message.package "c" "round one package" 1) := by
      simp only [echoedByBoth, runCalls, List.mem_cons, List.not_mem_nil, or_false] at he
      rcases he with rfl | rfl | rfl
      · exact Or.inl rfl
      · exact Or.inr (Or.inl rfl)
      · exact Or.inr (Or.inr rfl)
    rw [hcmd] at hthree
    rcases hthree with hsend | hbob | hcarol
    · cases hsend
    · cases hbob
      rfl
    · cases hcarol
      rfl
  · exact ⟨_, List.mem_of_getElem? (show (runCalls start echoedByBoth).2[2]? = some _ from rfl),
      by decide⟩

/-- A broadcast to one member, which echoes another payload under the same id. -/
def echoedOtherwise : List (Call Unit) :=
  [.send (Message.package "localhost" "round one package" 1) onlyBob fun _ => true,
   .echo (Message.package "b" "another package" 1)]

/-- **An equivocating echo counts.**  The client is answered `Ok` though the only member echoed a
payload that was never sent. -/
theorem disagreement_echoedOtherwise :
    ∃ tr t, (machine Unit).Run start tr t ∧
      ¬ AgreesOnContent tr (Message.package "localhost" "round one package" 1) := by
  refine ⟨_, _, run_runCalls start echoedOtherwise, ?_⟩
  intro hagrees
  have hfresh : ∀ e' ∈ (runCalls start echoedOtherwise).2, ∀ data' members' tx',
      e'.command = .send data' members' tx' → data'.getMessageId = some ⟨1⟩ → tx' = 0 := by
    intro e' he' data' members' tx' hcmd _
    simp only [echoedOtherwise, runCalls, List.mem_cons, List.not_mem_nil, or_false] at he'
    rcases he' with rfl | rfl
    · exact (EchoBroadcastMessage.send.inj hcmd).2.2.symm
    · cases hcmd
  obtain ⟨e₁, he₁, echoed, hcmd, -, -, -, hpayload⟩ :=
    hagrees ((runCalls start echoedOtherwise).2.take 1) _ [] _ onlyBob 0 ⟨1⟩ rfl
      (show Effect.respond 0 (.ok ()) ∈ [Effect.respond 0 (.ok ())] by decide)
      List.mem_cons_self rfl rfl hfresh "b" (by decide) (by decide)
  -- the only Echo of the run carries the other payload
  simp only [echoedOtherwise, runCalls, List.take, List.cons_append, List.nil_append,
    List.mem_cons, List.not_mem_nil, or_false] at he₁
  rcases he₁ with rfl | rfl
  · cases hcmd
  · cases hcmd
    revert hpayload
    decide

end EchoTask

end FrostFederation.EchoBroadcast
