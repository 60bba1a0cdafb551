/-
# FrostFederation.EchoBroadcast.Record — what one command can do, and the record a run leaves.

Everything later modules prove about the actor goes through this file.  The first half says ONCE
what a handler does to each of the maps: the loop of `send_message` (`sendToMembers_*`), the two
ways `send_message` can return (`sendMessage_cases`) and the two ways `handle_received_echo` can
(`handleReceivedEcho_cases`).  The second half lifts this to events: `message_echos` is monotone, and
after any run it is the record of the events — an echo is true exactly for the parties that were
HEARD (`heard_iff`), and absent exactly for those that were neither heard nor REACHED by a reliable send
(`absent_iff`).
-/
import FrostFederation.EchoBroadcast.Actor

namespace FrostFederation.EchoBroadcast

open FrostFederation.Lib
open FrostFederation.Protocol

variable {H : Type}

namespace EchoBroadcastActor

/-! ## The loop of `send_message` -/

/-- A reliable send to `x` succeeded among these effects. -/
def Reached (effects : List (Effect H)) (x : String) : Prop :=
  ∃ h data, Effect.reliableSend x h data true ∈ effects

theorem reached_nil (x : String) : ¬ Reached ([] : List (Effect H)) x := by
  rintro ⟨h, data, hmem⟩
  simp at hmem

theorem reached_cons (y : String) (h : H) (data : Message) (effects : List (Effect H))
    (x : String) :
    Reached (.reliableSend y h data true :: effects) x ↔ x = y ∨ Reached effects x := by
  constructor
  · rintro ⟨h', data', hmem⟩
    rcases List.mem_cons.mp hmem with heq | hmem
    · injection heq with hx
      exact Or.inl hx
    · exact Or.inr ⟨h', data', hmem⟩
  · rintro (rfl | ⟨h', data', hmem⟩)
    · exact ⟨h, data, by simp⟩
    · exact ⟨h', data', List.mem_cons_of_mem _ hmem⟩

/-- What is not a successful reliable send reaches nobody. -/
theorem reached_append {effects rest : List (Effect H)} (x : String)
    (hrest : ∀ h data, Effect.reliableSend x h data true ∉ rest) :
    Reached (effects ++ rest) x ↔ Reached effects x := by
  constructor
  · rintro ⟨h, data, hmem⟩
    rcases List.mem_append.mp hmem with hmem | hmem
    · exact ⟨h, data, hmem⟩
    · exact absurd hmem (hrest h data)
  · rintro ⟨h, data, hmem⟩
    exact ⟨h, data, List.mem_append_left _ hmem⟩

theorem lookup₂_expectEcho (echos : EchosMap) (messageId k : MessageId) (member x : String) :
    HashMap.lookup₂ (expectEcho echos messageId member) k x =
      if k = messageId ∧ x = member then some ((HashMap.lookup₂ echos k x).getD false)
      else HashMap.lookup₂ echos k x := by
  unfold expectEcho HashMap.upsert
  rw [HashMap.lookup₂_insert]
  by_cases hk : k = messageId
  · subst hk
    rw [if_pos rfl, HashMap.lookup_orInsert]
    cases hl : echos.lookup k with
    | none =>
        by_cases hx : x = member
        · simp [hx, HashMap.lookup₂, hl, default]
        · simp [hx, HashMap.lookup₂, hl, default]
    | some received =>
        by_cases hx : x = member
        · subst hx
          simp [HashMap.lookup₂, hl]
        · simp [hx, HashMap.lookup₂, hl]
  · simp [hk]

theorem lookup_expectEcho (echos : EchosMap) (messageId k : MessageId) (member : String) :
    (expectEcho echos messageId member).lookup k = none ↔
      k ≠ messageId ∧ echos.lookup k = none := by
  unfold expectEcho HashMap.upsert
  rw [HashMap.lookup_insert_eq_ite]
  split
  · next hk => simp [hk]
  · next hk => simp [hk]

section Loop

variable (reach : String → Bool) (data : Message) (messageId : MessageId)

/-- The loop never turns an echo to true and never loses one. -/
theorem sendToMembers_true (entries : List ((_ : String) × H)) (echos : EchosMap) (k : MessageId)
    (x : String) :
    HashMap.lookup₂ (sendToMembers reach data messageId entries echos).1 k x = some true ↔
      HashMap.lookup₂ echos k x = some true := by
  induction entries generalizing echos with
  | nil => rfl
  | cons entry rest ih =>
      obtain ⟨member, h⟩ := entry
      unfold sendToMembers
      split
      · rw [ih, lookup₂_expectEcho]
        split
        · cases HashMap.lookup₂ echos k x <;> simp
        · rfl
      · rfl

/-- The loop adds entries for exactly the members it reached. -/
theorem sendToMembers_none (entries : List ((_ : String) × H)) (echos : EchosMap) (k : MessageId)
    (x : String) :
    HashMap.lookup₂ (sendToMembers reach data messageId entries echos).1 k x = none ↔
      HashMap.lookup₂ echos k x = none ∧
        ¬ (k = messageId ∧ Reached (sendToMembers reach data messageId entries echos).2.1 x) := by
  induction entries generalizing echos with
  | nil => simp [sendToMembers, reached_nil]
  | cons entry rest ih =>
      obtain ⟨member, h⟩ := entry
      unfold sendToMembers
      split
      · rw [ih, lookup₂_expectEcho, reached_cons]
        split
        · next hkx => simp [hkx]
        · next hkx =>
            constructor
            · rintro ⟨hnone, hnot⟩
              refine ⟨hnone, ?_⟩
              rintro ⟨hk, hx | hr⟩
              · exact hkx ⟨hk, hx⟩
              · exact hnot ⟨hk, hr⟩
            · rintro ⟨hnone, hnot⟩
              exact ⟨hnone, fun hkr => hnot ⟨hkr.1, Or.inr hkr.2⟩⟩
      · simp [Reached]

/-- The loop runs to its end exactly when every reliable send succeeds. -/
theorem sendToMembers_ok (entries : List ((_ : String) × H)) (echos : EchosMap) :
    (sendToMembers reach data messageId entries echos).2.2 = true ↔
      ∀ entry ∈ entries, reach entry.1 = true := by
  induction entries generalizing echos with
  | nil => simp [sendToMembers]
  | cons entry rest ih =>
      obtain ⟨member, h⟩ := entry
      unfold sendToMembers
      split
      · next hr => simp [ih, hr]
      · next hr => simp [hr]

/-- Whoever the loop reached is one of the entries it was given, and can be reached. -/
theorem mem_of_reached (entries : List ((_ : String) × H)) (echos : EchosMap) {x : String}
    (hx : Reached (sendToMembers reach data messageId entries echos).2.1 x) :
    (∃ entry ∈ entries, entry.1 = x) ∧ reach x = true := by
  induction entries generalizing echos with
  | nil => exact absurd hx (reached_nil x)
  | cons entry rest ih =>
      obtain ⟨member, h⟩ := entry
      unfold sendToMembers at hx
      split at hx
      · next hr =>
          rcases (reached_cons _ _ _ _ _).mp hx with rfl | hx
          · exact ⟨⟨⟨x, h⟩, by simp, rfl⟩, hr⟩
          · obtain ⟨⟨entry, hmem, heq⟩, hr⟩ := ih _ hx
            exact ⟨⟨entry, List.mem_cons_of_mem _ hmem, heq⟩, hr⟩
      · obtain ⟨h', data', hmem⟩ := hx
        simp at hmem

/-- The first entry is reached if it can be, whatever comes after it. -/
theorem reached_of_first {x : String} {h : H} (rest : List ((_ : String) × H)) (echos : EchosMap)
    (hr : reach x = true) : Reached (sendToMembers reach data messageId (⟨x, h⟩ :: rest) echos).2.1 x := by
  unfold sendToMembers
  rw [if_pos hr, reached_cons]
  exact Or.inl rfl

/-- A loop that ran to its end reached every one of its entries. -/
theorem reached_of_ok (entries : List ((_ : String) × H)) (echos : EchosMap)
    (hok : (sendToMembers reach data messageId entries echos).2.2 = true) {x : String}
    (hx : ∃ entry ∈ entries, entry.1 = x) :
    Reached (sendToMembers reach data messageId entries echos).2.1 x := by
  induction entries generalizing echos with
  | nil => simp at hx
  | cons entry rest ih =>
      obtain ⟨member, h⟩ := entry
      obtain ⟨entry, hmem, rfl⟩ := hx
      unfold sendToMembers at hok ⊢
      split at hok
      · next hr =>
          rw [if_pos hr]
          rw [reached_cons]
          rcases List.mem_cons.mp hmem with rfl | hmem
          · exact Or.inl rfl
          · exact Or.inr (ih _ hok ⟨entry, hmem, rfl⟩)
      · simp at hok

/-- A loop that returned from the middle did so on a reliable send that failed. -/
theorem failed_of_not_ok (entries : List ((_ : String) × H)) (echos : EchosMap)
    (hok : (sendToMembers reach data messageId entries echos).2.2 = false) :
    ∃ entry ∈ entries, Effect.reliableSend entry.1 entry.2 data false ∈
      (sendToMembers reach data messageId entries echos).2.1 := by
  induction entries generalizing echos with
  | nil => simp [sendToMembers] at hok
  | cons entry rest ih =>
      obtain ⟨member, h⟩ := entry
      unfold sendToMembers at hok ⊢
      split at hok
      · next hr =>
          rw [if_pos hr]
          obtain ⟨entry, hmem, heff⟩ := ih _ hok
          exact ⟨entry, List.mem_cons_of_mem _ hmem, List.mem_cons_of_mem _ heff⟩
      · next hr =>
          rw [if_neg hr]
          exact ⟨⟨member, h⟩, by simp, by simp⟩

/-- The loop only sends, to its entries: it answers nobody and drops nothing. -/
theorem reliableSend_of_mem (entries : List ((_ : String) × H)) (echos : EchosMap)
    {effect : Effect H} (h : effect ∈ (sendToMembers reach data messageId entries echos).2.1) :
    ∃ x handle ok, effect = .reliableSend x handle data ok ∧ ⟨x, handle⟩ ∈ entries := by
  induction entries generalizing echos with
  | nil => simp [sendToMembers] at h
  | cons entry rest ih =>
      obtain ⟨member, handle⟩ := entry
      unfold sendToMembers at h
      split at h
      · rcases List.mem_cons.mp h with rfl | h
        · exact ⟨member, handle, true, rfl, List.mem_cons_self⟩
        · obtain ⟨x, handle', ok, heq, hmem⟩ := ih _ h
          exact ⟨x, handle', ok, heq, List.mem_cons_of_mem _ hmem⟩
      · obtain rfl := List.mem_singleton.mp h
        exact ⟨member, handle, false, rfl, List.mem_cons_self⟩

/-- The loop creates the entry of its id with the first member it reaches, and no other entry. -/
theorem sendToMembers_lookup (entries : List ((_ : String) × H)) (echos : EchosMap)
    (k : MessageId) :
    (sendToMembers reach data messageId entries echos).1.lookup k = none ↔
      echos.lookup k = none ∧
        ¬ (k = messageId ∧ ∃ x, Reached (sendToMembers reach data messageId entries echos).2.1 x) := by
  induction entries generalizing echos with
  | nil => simp [sendToMembers, reached_nil]
  | cons entry rest ih =>
      obtain ⟨member, h⟩ := entry
      unfold sendToMembers
      split
      · have hfirst : ∃ x, Reached (.reliableSend member h data true ::
            (sendToMembers reach data messageId rest (expectEcho echos messageId member)).2.1) x :=
          ⟨member, (reached_cons _ _ _ _ _).mpr (Or.inl rfl)⟩
        rw [ih, lookup_expectEcho]
        by_cases hk : k = messageId
        · simp [hk, hfirst]
        · simp [hk]
      · simp [Reached]

end Loop

/-! ## The two ways each handler returns -/

section Handlers

variable {actor actor' : EchoBroadcastActor H} {reach : String → Bool} {data : Message}
  {members : ReliableSenderMap H} {tx : Oneshot} {effects : List (Effect H)}
  {result : ConnectionResult}

/-- `send_message` returns an error from the middle of its loop, leaving only the echos it awaits,
or it completes. -/
theorem sendMessage_cases
    (h : actor.sendMessage reach data members tx = some (actor', effects, result)) :
    ∃ m echos sent, data.getMessageId = some m ∧
      ((sendToMembers reach data m members.entries actor.messageEchos = (echos, sent, false) ∧
          actor' = { actor with messageEchos := echos } ∧
          effects = sent ++ [.respond tx (.error "Error sending using reliable sender")] ∧
          result = .error "Error sending message using reliable sender") ∨
        (sendToMembers reach data m members.entries actor.messageEchos = (echos, sent, true) ∧
          (∃ received, echos.lookup m = some received ∧
            actor' =
              { reliableSenders := actor.reliableSenders.insert m members
                messageEchos := echos.insert m (received.insert data.getSenderId true)
                messageClientTxs := actor.messageClientTxs.insert m tx }) ∧
          effects = sent ++ ((actor.messageClientTxs.lookup m).map Effect.drop).toList ∧
          result = .ok ())) := by
  unfold sendMessage at h
  cases hm : data.getMessageId with
  | none => simp [hm] at h
  | some m =>
      simp only [hm] at h
      cases hloop : sendToMembers reach data m members.entries actor.messageEchos with
      | mk echos p =>
          obtain ⟨sent, ok⟩ := p
          refine ⟨m, echos, sent, rfl, ?_⟩
          cases ok with
          | false =>
              rw [hloop] at h
              simp only [Option.some.injEq, Prod.mk.injEq] at h
              obtain ⟨rfl, rfl, rfl⟩ := h
              exact Or.inl ⟨hloop, rfl, rfl, rfl⟩
          | true =>
              rw [hloop] at h
              simp only [completeSend] at h
              cases hl : echos.lookup m with
              | none => simp [hl] at h
              | some received =>
                  simp only [hl, Option.some.injEq, Prod.mk.injEq] at h
                  obtain ⟨rfl, rfl, rfl⟩ := h
                  exact Or.inr ⟨hloop, ⟨received, rfl, rfl⟩, rfl, rfl⟩

theorem echo_addEcho (actor : EchoBroadcastActor H) (m k : MessageId) (senderId x : String) :
    (actor.addEcho m senderId).echo k x =
      if k = m ∧ x = senderId then some true else actor.echo k x := by
  unfold addEcho echo
  cases hl : actor.messageEchos.lookup m with
  | none => exact HashMap.lookup₂_insert_insert (fun x => by simp [HashMap.lookup₂, hl]) _ _ _ _
  | some received =>
      exact HashMap.lookup₂_insert_insert (fun x => (HashMap.lookup₂_of_lookup hl x).symm) _ _ _ _

@[simp]
theorem addEcho_messageClientTxs (actor : EchoBroadcastActor H) (m : MessageId) (x : String) :
    (actor.addEcho m x).messageClientTxs = actor.messageClientTxs := by
  unfold addEcho
  cases actor.messageEchos.lookup m <;> rfl

@[simp]
theorem addEcho_reliableSenders (actor : EchoBroadcastActor H) (m : MessageId) (x : String) :
    (actor.addEcho m x).reliableSenders = actor.reliableSenders := by
  unfold addEcho
  cases actor.messageEchos.lookup m <;> rfl

/-- After an echo has been added, the scan finds an entry, and it succeeds exactly when nothing in
it is false. -/
theorem echoReceivedForAll_addEcho (actor : EchoBroadcastActor H) (m : MessageId)
    (senderId : String) :
    ∃ b, (actor.addEcho m senderId).echoReceivedForAll m = some b ∧
      (b = true ↔ ∀ x, (actor.addEcho m senderId).echo m x ≠ some false) := by
  have hentry : ∃ received, (actor.addEcho m senderId).messageEchos.lookup m = some received := by
    unfold addEcho
    cases actor.messageEchos.lookup m <;> simp
  obtain ⟨received, hl⟩ := hentry
  refine ⟨HashMap.allValues received id, by simp [echoReceivedForAll, hl], ?_⟩
  rw [HashMap.allValues_iff]
  constructor
  · intro h x hx
    have hfalse : received.lookup x = some false := by
      rw [← HashMap.lookup₂_of_lookup hl x]
      exact hx
    exact Bool.false_ne_true (h x false hfalse)
  · intro h x b hx
    have hne := h x
    rw [echo, HashMap.lookup₂_of_lookup hl x, hx] at hne
    cases b with
    | false => exact absurd rfl hne
    | true => rfl

/-- `handle_received_echo` adds the echo; if nothing is false afterwards it answers and forgets the
waiter of that id, else it touches no waiter. -/
theorem handleReceivedEcho_cases (h : actor.handleReceivedEcho data = some (actor', effects)) :
    ∃ m, data.getMessageId = some m ∧
      (((∃ x, (actor.addEcho m data.getSenderId).echo m x = some false) ∧
          actor' = actor.addEcho m data.getSenderId ∧ effects = []) ∨
        ((∀ x, (actor.addEcho m data.getSenderId).echo m x ≠ some false) ∧
          actor' =
            { actor.addEcho m data.getSenderId with
              messageClientTxs := actor.messageClientTxs.erase m } ∧
          effects = match actor.messageClientTxs.lookup m with
            | some respondTo => [.respond respondTo (.ok ())]
            | none => [])) := by
  unfold handleReceivedEcho at h
  cases hm : data.getMessageId with
  | none => simp [hm] at h
  | some m =>
      refine ⟨m, rfl, ?_⟩
      obtain ⟨b, hb, hall⟩ := echoReceivedForAll_addEcho actor m data.getSenderId
      simp only [hm, hb, addEcho_messageClientTxs] at h
      cases b with
      | false =>
          simp only [Option.some.injEq, Prod.mk.injEq] at h
          obtain ⟨rfl, rfl⟩ := h
          refine Or.inl ⟨?_, rfl, rfl⟩
          by_contra hno
          refine Bool.false_ne_true (hall.mpr ?_)
          intro x hx
          exact hno ⟨x, hx⟩
      | true =>
          simp only [Option.some.injEq, Prod.mk.injEq] at h
          obtain ⟨rfl, rfl⟩ := h
          exact Or.inr ⟨hall.mp rfl, rfl, rfl⟩

/-- Whatever an echo does to the waiters, it changes `message_echos` by `add_echo` only. -/
theorem handleReceivedEcho_echo (h : actor.handleReceivedEcho data = some (actor', effects)) :
    ∃ m, data.getMessageId = some m ∧
      ∀ k x, actor'.echo k x =
        if k = m ∧ x = data.getSenderId then some true else actor.echo k x := by
  obtain ⟨m, hm, ⟨-, rfl, -⟩ | ⟨-, rfl, -⟩⟩ := handleReceivedEcho_cases h
  · exact ⟨m, hm, fun k x => echo_addEcho actor m k data.getSenderId x⟩
  · exact ⟨m, hm, fun k x => echo_addEcho actor m k data.getSenderId x⟩

end Handlers

end EchoBroadcastActor

/-! ## What an event records -/

namespace Event

/-- An Echo with message id `m` and sender id `x` was processed. -/
def EchoOf (e : Event H) (m : MessageId) (x : String) : Prop :=
  ∃ data, e.command = .echo data ∧ data.getMessageId = some m ∧ data.getSenderId = x ∧
    e.outcome = .returned (.ok ())

/-- A Send with message id `m` and sender id `x` was processed and succeeded. -/
def SendOf (e : Event H) (m : MessageId) (x : String) : Prop :=
  ∃ data members tx, e.command = .send data members tx ∧ data.getMessageId = some m ∧
    data.getSenderId = x ∧ e.outcome = .returned (.ok ())

/-- The event puts the echo of `x` to `m` on record. -/
def Hears (e : Event H) (m : MessageId) (x : String) : Prop := e.EchoOf m x ∨ e.SendOf m x

/-- A Send with message id `m` got through to `x`. -/
def Reaches (e : Event H) (m : MessageId) (x : String) : Prop :=
  ∃ data members tx, e.command = .send data members tx ∧ data.getMessageId = some m ∧
    EchoBroadcastActor.Reached e.effects x

section

variable {e : Event H} {data : Message} {members : ReliableSenderMap H} {tx : Oneshot}

theorem hears_of_send (hcmd : e.command = .send data members tx) (m : MessageId) (x : String) :
    e.Hears m x ↔
      e.outcome = .returned (.ok ()) ∧ data.getMessageId = some m ∧ data.getSenderId = x := by
  constructor
  · rintro (⟨data', h, _⟩ | ⟨data', members', tx', h, hid, hx, hout⟩)
    · rw [hcmd] at h
      cases h
    · rw [hcmd] at h
      cases h
      exact ⟨hout, hid, hx⟩
  · rintro ⟨hout, hid, hx⟩
    exact Or.inr ⟨data, members, tx, hcmd, hid, hx, hout⟩

theorem hears_of_echo (hcmd : e.command = .echo data) (m : MessageId) (x : String) :
    e.Hears m x ↔
      e.outcome = .returned (.ok ()) ∧ data.getMessageId = some m ∧ data.getSenderId = x := by
  constructor
  · rintro (⟨data', h, hid, hx, hout⟩ | ⟨data', members', tx', h, _⟩)
    · rw [hcmd] at h
      cases h
      exact ⟨hout, hid, hx⟩
    · rw [hcmd] at h
      cases h
  · rintro ⟨hout, hid, hx⟩
    exact Or.inl ⟨data, hcmd, hid, hx, hout⟩

theorem reaches_of_send (hcmd : e.command = .send data members tx) (m : MessageId) (x : String) :
    e.Reaches m x ↔
      data.getMessageId = some m ∧ EchoBroadcastActor.Reached e.effects x := by
  constructor
  · rintro ⟨data', members', tx', h, hid, hr⟩
    rw [hcmd] at h
    cases h
    exact ⟨hid, hr⟩
  · rintro ⟨hid, hr⟩
    exact ⟨data, members, tx, hcmd, hid, hr⟩

theorem not_reaches_of_echo (hcmd : e.command = .echo data) (m : MessageId) (x : String) :
    ¬ e.Reaches m x := by
  rintro ⟨data', members', tx', h, _⟩
  rw [hcmd] at h
  cases h

end

end Event

namespace EchoTask

variable {t t' : EchoTask H} {c : Call H} {e : Event H} {a a' : EchoBroadcastActor H}

theorem machine_step_iff : (machine H).step t c = some (t', e) ↔ t.step c = (t', e) := by
  simp [machine]

/-- What a call on the handle can meet: a task that is gone, an actor that panics on the command and
takes its task with it, or an actor that handles it. -/
theorem step_cases (hs : (machine H).step t c = some (t', e)) :
    t'.opened = c.openedAfter t.opened ∧ e.command = c.command t.opened ∧ e.reach = c.reach ∧
      ((t.actor = none ∧ t'.actor = none ∧ e.outcome = .refused ∧
          e.effects = (respondTo e.command).map .drop) ∨
        (∃ a, t.actor = some a ∧ t'.actor = none ∧ e.outcome = .panicked ∧
          e.effects = (respondTo e.command ++ a.messageClientTxs.entries.map Sigma.snd).map .drop) ∨
        ∃ a a' result, t.actor = some a ∧ t'.actor = some a' ∧ e.outcome = .returned result ∧
          a.handleMessage e.reach e.command = some (a', e.effects, result)) := by
  rw [machine_step_iff] at hs
  unfold step process at hs
  cases ha : t.actor with
  | none =>
      simp only [ha, Prod.mk.injEq] at hs
      obtain ⟨rfl, rfl⟩ := hs
      exact ⟨rfl, rfl, rfl, Or.inl ⟨rfl, rfl, rfl, rfl⟩⟩
  | some a =>
      simp only [ha] at hs
      cases hh : a.handleMessage c.reach (c.command t.opened) with
      | none =>
          simp only [hh, Prod.mk.injEq] at hs
          obtain ⟨rfl, rfl⟩ := hs
          exact ⟨rfl, rfl, rfl, Or.inr (Or.inl ⟨a, rfl, rfl, rfl, rfl⟩)⟩
      | some r =>
          simp only [hh, Prod.mk.injEq] at hs
          obtain ⟨rfl, rfl⟩ := hs
          exact ⟨rfl, rfl, rfl, Or.inr (Or.inr ⟨a, r.1, r.2.2, rfl, rfl, rfl, hh⟩)⟩

/-- A task that is alive after a step was alive before it, and its actor handled the command. -/
theorem handled_of_step (hs : (machine H).step t c = some (t', e)) (ha' : t'.actor = some a') :
    ∃ a result, t.actor = some a ∧ e.command = c.command t.opened ∧ e.reach = c.reach ∧
      e.outcome = .returned result ∧
      a.handleMessage e.reach e.command = some (a', e.effects, result) := by
  obtain ⟨-, hcmd, hreach, ⟨-, hdead, -⟩ | ⟨a, -, hdead, -⟩ | ⟨a, a₁, result, ha, ha₁, hout, hh⟩⟩ :=
    step_cases hs
  · cases hdead.symm.trans ha'
  · cases hdead.symm.trans ha'
  · obtain rfl : a₁ = a' := Option.some.inj (ha₁.symm.trans ha')
    exact ⟨a, result, ha, hcmd, hreach, hout, hh⟩

/-- A step counts the channels it opens. -/
theorem opened_of_step (hs : (machine H).step t c = some (t', e)) :
    t'.opened = c.openedAfter t.opened ∧ e.command = c.command t.opened := by
  obtain ⟨hopened, hcmd, -⟩ := step_cases hs
  exact ⟨hopened, hcmd⟩

/-! ## The four ways a command is handled -/

/-- A list of effects that only sends `data`, to members with their own handles. -/
def OnlySends (data : Message) (members : ReliableSenderMap H) (sent : List (Effect H)) : Prop :=
  ∀ effect ∈ sent, ∃ x handle ok, effect = .reliableSend x handle data ok ∧
    members.lookup x = some handle

/-- One handled command: what it asks for, what it emits, and what it does to the two maps besides
`message_echos`. -/
inductive Handled (a : EchoBroadcastActor H) (e : Event H) (a' : EchoBroadcastActor H) : Prop
  | sendFailed {data : Message} {members : ReliableSenderMap H} {tx : Oneshot} {m : MessageId}
      {sent : List (Effect H)} (hcmd : e.command = .send data members tx)
      (hid : data.getMessageId = some m)
      (hout : e.outcome = .returned (.error "Error sending message using reliable sender"))
      (hsent : OnlySends data members sent) (hreach : ¬ ∀ x ∈ members.keys, e.reach x = true)
      (hfail : ∃ x ∈ members.keys, ∃ handle, Effect.reliableSend x handle data false ∈ sent)
      (heff : e.effects = sent ++ [.respond tx (.error "Error sending using reliable sender")])
      (hsenders : a'.reliableSenders = a.reliableSenders)
      (htxs : a'.messageClientTxs = a.messageClientTxs) : Handled a e a'
  | sendCompleted {data : Message} {members : ReliableSenderMap H} {tx : Oneshot} {m : MessageId}
      {sent : List (Effect H)} (hcmd : e.command = .send data members tx)
      (hid : data.getMessageId = some m) (hout : e.outcome = .returned (.ok ()))
      (hsent : OnlySends data members sent) (hreach : ∀ x ∈ members.keys, e.reach x = true)
      (hreached : ∀ x, EchoBroadcastActor.Reached sent x ↔ x ∈ members.keys)
      (heff : e.effects = sent ++ ((a.messageClientTxs.lookup m).map Effect.drop).toList)
      (hsenders : a'.reliableSenders = a.reliableSenders.insert m members)
      (htxs : a'.messageClientTxs = a.messageClientTxs.insert m tx) : Handled a e a'
  | echoAwaited {data : Message} {m : MessageId} (hcmd : e.command = .echo data)
      (hid : data.getMessageId = some m) (hout : e.outcome = .returned (.ok ()))
      (hmissing : ∃ x, a'.echo m x = some false) (heff : e.effects = [])
      (hsenders : a'.reliableSenders = a.reliableSenders)
      (htxs : a'.messageClientTxs = a.messageClientTxs) : Handled a e a'
  | echoCompleted {data : Message} {m : MessageId} (hcmd : e.command = .echo data)
      (hid : data.getMessageId = some m) (hout : e.outcome = .returned (.ok ()))
      (hall : ∀ x, a'.echo m x ≠ some false)
      (heff : e.effects =
        match a.messageClientTxs.lookup m with
        | some respondTo => [.respond respondTo (.ok ())]
        | none => [])
      (hsenders : a'.reliableSenders = a.reliableSenders)
      (htxs : a'.messageClientTxs = a.messageClientTxs.erase m) : Handled a e a'

/-- The keys of a member map are the members the loop is given. -/
theorem exists_entry_iff_mem_keys (members : ReliableSenderMap H) (x : String) :
    (∃ entry ∈ members.entries, entry.1 = x) ↔ x ∈ members.keys := by
  rw [HashMap.mem_keys_iff_lookup]
  constructor
  · rintro ⟨⟨y, h⟩, hmem, rfl⟩
    exact ⟨h, (HashMap.mem_entries_iff_lookup members y h).mp hmem⟩
  · rintro ⟨h, hl⟩
    exact ⟨⟨x, h⟩, (HashMap.mem_entries_iff_lookup members x h).mpr hl, rfl⟩

/-- The loop over a member map runs to its end exactly when every member is reached. -/
theorem sendToMembers_ok_iff (reach : String → Bool) (data : Message) (m : MessageId)
    (members : ReliableSenderMap H) (echos : EchosMap) :
    (EchoBroadcastActor.sendToMembers reach data m members.entries echos).2.2 = true ↔
      ∀ x ∈ members.keys, reach x = true := by
  rw [EchoBroadcastActor.sendToMembers_ok]
  constructor
  · intro h x hx
    obtain ⟨entry, hmem, rfl⟩ := (exists_entry_iff_mem_keys members x).mpr hx
    exact h entry hmem
  · intro h entry hmem
    exact h entry.1 ((exists_entry_iff_mem_keys members entry.1).mp ⟨entry, hmem, rfl⟩)

section Loop

variable {reach : String → Bool} {data : Message} {m : MessageId} {members : ReliableSenderMap H}
  {before echos : EchosMap} {sent : List (Effect H)} {ok : Bool}

/-- The loop over a member map sends to its members and does nothing else. -/
theorem onlySends_of_loop
    (hloop : EchoBroadcastActor.sendToMembers reach data m members.entries before =
      (echos, sent, ok)) : OnlySends data members sent := by
  intro effect hmem
  obtain ⟨x, handle, ok, heq, hentry⟩ := EchoBroadcastActor.reliableSend_of_mem reach data m
    members.entries before (by rw [hloop]; exact hmem)
  exact ⟨x, handle, ok, heq, (HashMap.mem_entries_iff_lookup members x handle).mp hentry⟩

/-- A loop that runs to its end reaches exactly the members. -/
theorem reached_of_loop
    (hloop : EchoBroadcastActor.sendToMembers reach data m members.entries before =
      (echos, sent, true)) (x : String) :
    EchoBroadcastActor.Reached sent x ↔ x ∈ members.keys := by
  rw [← exists_entry_iff_mem_keys]
  constructor
  · intro hx
    refine (EchoBroadcastActor.mem_of_reached reach data m members.entries before ?_).1
    rw [hloop]
    exact hx
  · intro hx
    have hr := EchoBroadcastActor.reached_of_ok reach data m members.entries before
      (by rw [hloop]) hx
    rw [hloop] at hr
    exact hr

end Loop

/-- `send_message` with an id panics exactly when there is nobody to send to and no entry for the
id: the loop creates the entry with the first member it reaches. -/
theorem sendMessage_eq_none_iff {data : Message} {m : MessageId} (hid : data.getMessageId = some m)
    (a : EchoBroadcastActor H) (reach : String → Bool) (members : ReliableSenderMap H)
    (tx : Oneshot) :
    a.sendMessage reach data members tx = none ↔
      members.keys = [] ∧ a.messageEchos.lookup m = none := by
  have hentry := EchoBroadcastActor.sendToMembers_lookup reach data m members.entries
    a.messageEchos m
  have hok := sendToMembers_ok_iff reach data m members a.messageEchos
  unfold EchoBroadcastActor.sendMessage
  simp only [hid]
  rcases hloop : EchoBroadcastActor.sendToMembers reach data m members.entries a.messageEchos with
    ⟨echos, sent, ok⟩
  rw [hloop] at hentry hok
  cases ok with
  | false =>
      -- some member was not reached, so there is one
      have hne : members.keys ≠ [] := by
        intro hnil
        exact Bool.false_ne_true (hok.mpr (by simp [hnil]))
      simp [hne]
  | true =>
      have hreached : (∃ x, EchoBroadcastActor.Reached sent x) ↔ members.keys ≠ [] := by
        simp only [reached_of_loop hloop]
        exact ⟨fun ⟨_, hx⟩ => List.ne_nil_of_mem hx, List.exists_mem_of_ne_nil _⟩
      simp only [true_and, hreached, not_not] at hentry
      rw [and_comm, ← hentry]
      cases hl : echos.lookup m <;> simp [EchoBroadcastActor.completeSend, hl]

/-- `handle_received_echo` with an id never panics: it creates the entry it scans. -/
theorem handleReceivedEcho_ne_none {data : Message} (hid : data.getMessageId.isSome = true)
    (a : EchoBroadcastActor H) : a.handleReceivedEcho data ≠ none := by
  obtain ⟨m, hm⟩ := Option.isSome_iff_exists.mp hid
  obtain ⟨b, hb, -⟩ := EchoBroadcastActor.echoReceivedForAll_addEcho a m data.getSenderId
  cases b <;> simp [EchoBroadcastActor.handleReceivedEcho, hm, hb]

/-- No state of the actor panics on a well identified command. -/
theorem handleMessage_ne_none {command : EchoBroadcastMessage H}
    (hid : command.wellIdentified = true) (a : EchoBroadcastActor H) (reach : String → Bool) :
    a.handleMessage reach command ≠ none := by
  cases command with
  | echo data =>
      intro hnone
      exact handleReceivedEcho_ne_none hid a (Option.map_eq_none_iff.mp hnone)
  | send data members tx =>
      have hboth : data.getMessageId.isSome = true ∧ members.keys ≠ [] := by
        simpa [EchoBroadcastMessage.wellIdentified] using hid
      obtain ⟨m, hm⟩ := Option.isSome_iff_exists.mp hboth.1
      intro hnone
      exact hboth.2 ((sendMessage_eq_none_iff hm a reach members tx).mp hnone).1

/-- **Every step of a live task is one of the four.** -/
theorem handled_cases (hs : (machine H).step t c = some (t', e)) (ha' : t'.actor = some a') :
    ∃ a, t.actor = some a ∧ Handled a e a' := by
  obtain ⟨a, result, ha, hcmd, -, hout, hh⟩ := handled_of_step hs ha'
  refine ⟨a, ha, ?_⟩
  cases c with
  | send data members reach =>
      rw [hcmd] at hh
      have hsend : a.sendMessage e.reach data members t.opened = some (a', e.effects, result) := hh
      obtain ⟨m, echos, sent, hm, hfailed | hcompleted⟩ :=
        EchoBroadcastActor.sendMessage_cases hsend
      · obtain ⟨hloop, rfl, heff, rfl⟩ := hfailed
        have hreach : ¬ ∀ x ∈ members.keys, e.reach x = true := by
          rw [← sendToMembers_ok_iff e.reach data m members a.messageEchos, hloop]
          exact Bool.false_ne_true
        obtain ⟨entry, hmem, hfail⟩ := EchoBroadcastActor.failed_of_not_ok e.reach data m
          members.entries a.messageEchos (by rw [hloop])
        rw [hloop] at hfail
        have hkey : entry.1 ∈ members.keys :=
          (exists_entry_iff_mem_keys members entry.1).mp ⟨entry, hmem, rfl⟩
        exact .sendFailed hcmd hm hout (onlySends_of_loop hloop) hreach
          ⟨entry.1, hkey, entry.2, hfail⟩ heff rfl rfl
      · obtain ⟨hloop, ⟨received, hl, rfl⟩, heff, rfl⟩ := hcompleted
        have hreach : ∀ x ∈ members.keys, e.reach x = true := by
          rw [← sendToMembers_ok_iff e.reach data m members a.messageEchos, hloop]
        exact .sendCompleted hcmd hm hout (onlySends_of_loop hloop) hreach (reached_of_loop hloop)
          heff rfl rfl
  | echo data =>
      rw [hcmd] at hh
      have hecho : (a.handleReceivedEcho data).map (fun r => (r.1, r.2, Except.ok ())) =
          some (a', e.effects, result) := hh
      obtain ⟨r, hr, heq⟩ := Option.map_eq_some_iff.mp hecho
      obtain ⟨a₁, effects⟩ := r
      simp only [Prod.mk.injEq] at heq
      obtain ⟨rfl, rfl, rfl⟩ := heq
      obtain ⟨m, hm, hawaited | hcompleted⟩ := EchoBroadcastActor.handleReceivedEcho_cases hr
      · obtain ⟨hmissing, rfl, heff⟩ := hawaited
        exact .echoAwaited hcmd hm hout hmissing heff (by simp) (by simp)
      · obtain ⟨hall, rfl, heff⟩ := hcompleted
        exact .echoCompleted hcmd hm hout hall heff (by simp) rfl

/-- Inversion for a Send: it fails, because it does not reach everybody, or it completes. -/
theorem Handled.of_send {data : Message} {members : ReliableSenderMap H} {tx : Oneshot}
    (h : Handled a e a') (hcmd : e.command = .send data members tx) :
    ∃ m sent, data.getMessageId = some m ∧ OnlySends data members sent ∧
      ((e.outcome = .returned (.error "Error sending message using reliable sender") ∧
          (¬ ∀ x ∈ members.keys, e.reach x = true) ∧
          e.effects = sent ++ [.respond tx (.error "Error sending using reliable sender")]) ∨
        (e.outcome = .returned (.ok ()) ∧
          (∀ x, EchoBroadcastActor.Reached sent x ↔ x ∈ members.keys) ∧
          e.effects = sent ++ ((a.messageClientTxs.lookup m).map Effect.drop).toList ∧
          a'.messageClientTxs = a.messageClientTxs.insert m tx)) := by
  cases h with
  | sendFailed hcmd' hid hout hsent hreach _ heff =>
      obtain ⟨rfl, rfl, rfl⟩ := EchoBroadcastMessage.send.inj (hcmd.symm.trans hcmd')
      exact ⟨_, _, hid, hsent, Or.inl ⟨hout, hreach, heff⟩⟩
  | sendCompleted hcmd' hid hout hsent _ hreached heff _ htxs =>
      obtain ⟨rfl, rfl, rfl⟩ := EchoBroadcastMessage.send.inj (hcmd.symm.trans hcmd')
      exact ⟨_, _, hid, hsent, Or.inr ⟨hout, hreached, heff, htxs⟩⟩
  | echoAwaited hcmd' => cases hcmd.symm.trans hcmd'
  | echoCompleted hcmd' => cases hcmd.symm.trans hcmd'

section Reached

variable {reach : String → Bool} {data : Message} {m : MessageId} {members : ReliableSenderMap H}
  {tx : Oneshot} {effects : List (Effect H)} {result : ConnectionResult} {x : String}

/-- A Send reaches whom its loop reaches. -/
theorem reached_sendMessage (hid : data.getMessageId = some m)
    (h : a.sendMessage reach data members tx = some (a', effects, result)) :
    EchoBroadcastActor.Reached effects x ↔ EchoBroadcastActor.Reached
      (EchoBroadcastActor.sendToMembers reach data m members.entries a.messageEchos).2.1 x := by
  obtain ⟨k, echos, sent, hk, ⟨hloop, -, rfl, -⟩ | ⟨hloop, -, rfl, -⟩⟩ :=
    EchoBroadcastActor.sendMessage_cases h
  · obtain rfl : m = k := Option.some.inj (hid.symm.trans hk)
    rw [hloop]
    exact EchoBroadcastActor.reached_append x (by simp)
  · obtain rfl : m = k := Option.some.inj (hid.symm.trans hk)
    rw [hloop]
    refine EchoBroadcastActor.reached_append x ?_
    intro handle data' hmem
    cases hlook : a.messageClientTxs.lookup m <;> simp [hlook] at hmem

/-- Whom a Send reaches is a member that can be reached. -/
theorem mem_keys_of_reached (hid : data.getMessageId = some m)
    (h : a.sendMessage reach data members tx = some (a', effects, result))
    (hx : EchoBroadcastActor.Reached effects x) : x ∈ members.keys ∧ reach x = true := by
  rw [← exists_entry_iff_mem_keys]
  exact EchoBroadcastActor.mem_of_reached reach data m members.entries a.messageEchos
    ((reached_sendMessage hid h).mp hx)

end Reached

/-! ## `message_echos` is the record of the run -/

/-- An entry is true, absent or false, so the first two decide it. -/
theorem eq_of_true_iff_of_none_iff {o o' : Option Bool} (htrue : o' = some true ↔ o = some true)
    (hnone : o' = none ↔ o = none) : o' = o := by
  rcases o with _ | _ | _
  · exact hnone.mpr rfl
  · rcases o' with _ | _ | _
    · cases hnone.mp rfl
    · rfl
    · cases htrue.mp rfl
  · exact htrue.mpr rfl

/-- The record one step leaves: true for whoever was heard, present for whoever was heard or
reached, and otherwise what it was. -/
structure Recorded (a : EchoBroadcastActor H) (e : Event H) (a' : EchoBroadcastActor H) :
    Prop where
  heard : ∀ m x, a'.echo m x = some true ↔ a.echo m x = some true ∨ e.Hears m x
  absent : ∀ m x, a'.echo m x = none ↔ a.echo m x = none ∧ ¬ e.Hears m x ∧ ¬ e.Reaches m x

/-- What the loop of a Send leaves in `message_echos`: nothing turns true, and whoever was reached has
an entry. -/
theorem recorded_of_loop {reach : String → Bool} {data : Message} {m : MessageId}
    {members : ReliableSenderMap H} {echos : EchosMap} {sent : List (Effect H)} {ok : Bool}
    (hloop : EchoBroadcastActor.sendToMembers reach data m members.entries a.messageEchos =
      (echos, sent, ok)) (k : MessageId) (x : String) :
    (HashMap.lookup₂ echos k x = some true ↔ a.echo k x = some true) ∧
      (HashMap.lookup₂ echos k x = none ↔
        a.echo k x = none ∧ ¬ (k = m ∧ EchoBroadcastActor.Reached sent x)) := by
  have htrue := EchoBroadcastActor.sendToMembers_true reach data m members.entries a.messageEchos k x
  have hnone := EchoBroadcastActor.sendToMembers_none reach data m members.entries a.messageEchos k x
  rw [hloop] at htrue hnone
  exact ⟨htrue, hnone⟩

theorem recorded_of_sendMessage {data : Message} {members : ReliableSenderMap H} {tx : Oneshot}
    {reach : String → Bool} {result : ConnectionResult}
    (h : a.sendMessage reach data members tx = some (a', e.effects, result))
    (hcmd : e.command = .send data members tx) (hout : e.outcome = .returned result) :
    Recorded a e a' := by
  obtain ⟨m, echos, sent, hm, hcases⟩ := EchoBroadcastActor.sendMessage_cases h
  have hreached : ∀ x, EchoBroadcastActor.Reached e.effects x ↔
      EchoBroadcastActor.Reached sent x := by
    intro x
    rw [reached_sendMessage hm h]
    rcases hcases with ⟨hloop, -⟩ | ⟨hloop, -⟩ <;> rw [hloop]
  rcases hcases with hfailed | hcompleted
  · obtain ⟨hloop, rfl, heff, rfl⟩ := hfailed
    have hnot : ∀ k x, ¬ e.Hears k x := by
      intro k x hk
      obtain ⟨hok, -⟩ := (Event.hears_of_send hcmd k x).mp hk
      rw [hout] at hok
      cases hok
    refine ⟨?_, ?_⟩
    · intro k x
      exact (recorded_of_loop hloop k x).1.trans ⟨Or.inl, fun h => h.resolve_right (hnot k x)⟩
    · intro k x
      refine (recorded_of_loop hloop k x).2.trans (and_congr_right fun _ => ?_)
      rw [Event.reaches_of_send hcmd, hreached, hm, Option.some_inj, eq_comm]
      exact ⟨fun h => ⟨hnot k x, h⟩, fun h => h.2⟩
  · obtain ⟨hloop, ⟨received, hl, rfl⟩, heff, rfl⟩ := hcompleted
    -- the completed entry of `m` is the loop's, with the sender's own echo turned to true
    have hecho : ∀ k x, HashMap.lookup₂
        (echos.insert m (received.insert data.getSenderId true)) k x =
          if k = m ∧ x = data.getSenderId then some true else HashMap.lookup₂ echos k x :=
      HashMap.lookup₂_insert_insert (fun x => (HashMap.lookup₂_of_lookup hl x).symm) _ _
    have hears : ∀ k x, e.Hears k x ↔ k = m ∧ x = data.getSenderId := by
      intro k x
      rw [Event.hears_of_send hcmd, hout, hm, Option.some_inj]
      constructor
      · rintro ⟨-, rfl, rfl⟩
        exact ⟨rfl, rfl⟩
      · rintro ⟨rfl, rfl⟩
        exact ⟨rfl, rfl, rfl⟩
    refine ⟨?_, ?_⟩
    · intro k x
      rw [EchoBroadcastActor.echo, hecho, hears]
      split
      · next hkx => simp [hkx]
      · next hkx =>
          exact (recorded_of_loop hloop k x).1.trans ⟨Or.inl, fun h => h.resolve_right hkx⟩
    · intro k x
      rw [EchoBroadcastActor.echo, hecho, hears, Event.reaches_of_send hcmd, hreached, hm,
        Option.some_inj]
      split
      · next hkx => simp [hkx]
      · next hkx =>
          refine (recorded_of_loop hloop k x).2.trans (and_congr_right fun _ => ?_)
          constructor
          · intro h
            exact ⟨hkx, fun hr => h ⟨hr.1.symm, hr.2⟩⟩
          · intro h hr
            exact h.2 ⟨hr.1.symm, hr.2⟩

theorem recorded_of_handleReceivedEcho {data : Message}
    (h : a.handleReceivedEcho data = some (a', e.effects))
    (hcmd : e.command = .echo data) (hout : e.outcome = .returned (.ok ())) :
    Recorded a e a' := by
  obtain ⟨m, hm, hecho⟩ := EchoBroadcastActor.handleReceivedEcho_echo h
  have hears : ∀ k x, e.Hears k x ↔ k = m ∧ x = data.getSenderId := by
    intro k x
    rw [Event.hears_of_echo hcmd, hout, hm, Option.some_inj]
    constructor
    · rintro ⟨-, rfl, rfl⟩
      exact ⟨rfl, rfl⟩
    · rintro ⟨rfl, rfl⟩
      exact ⟨rfl, rfl, rfl⟩
  refine ⟨?_, ?_⟩
  · intro k x
    rw [hecho, hears]
    split
    · next hkx => simp [hkx]
    · next hkx => simp [hkx]
  · intro k x
    rw [hecho, hears]
    have hnot := Event.not_reaches_of_echo hcmd k x
    split
    · next hkx => simp [hkx]
    · next hkx => simp [hkx, hnot]

/-- **Every step of a live task leaves its record.** -/
theorem recorded_of_step (hs : (machine H).step t c = some (t', e)) (ha : t.actor = some a)
    (ha' : t'.actor = some a') : Recorded a e a' := by
  obtain ⟨a₁, result, ha₁, hcmd, -, hout, hh⟩ := handled_of_step hs ha'
  obtain rfl : a₁ = a := by
    rw [ha] at ha₁
    exact (Option.some.inj ha₁).symm
  cases c with
  | send data members reach =>
      rw [hcmd] at hh
      exact recorded_of_sendMessage hh hcmd hout
  | echo data =>
      rw [hcmd] at hh
      have hecho : (a₁.handleReceivedEcho data).map (fun r => (r.1, r.2, Except.ok ())) =
          some (a', e.effects, result) := hh
      obtain ⟨r, hr, heq⟩ := Option.map_eq_some_iff.mp hecho
      obtain ⟨a₂, effects⟩ := r
      simp only [Prod.mk.injEq] at heq
      obtain ⟨rfl, rfl, rfl⟩ := heq
      exact recorded_of_handleReceivedEcho hr hcmd hout

/-- The echo of `x` to `m` was put on record by one of these events. -/
def Heard (tr : List (Event H)) (m : MessageId) (x : String) : Prop := ∃ e ∈ tr, e.Hears m x

/-- A Send of `m` got through to `x` in one of these events. -/
def ReachedIn (tr : List (Event H)) (m : MessageId) (x : String) : Prop :=
  ∃ e ∈ tr, e.Reaches m x

theorem heard_snoc {tr : List (Event H)} {m : MessageId} {x : String} :
    Heard (tr ++ [e]) m x ↔ Heard tr m x ∨ e.Hears m x := by
  simp [Heard, or_and_right, exists_or]

theorem reachedIn_snoc {tr : List (Event H)} {m : MessageId} {x : String} :
    ReachedIn (tr ++ [e]) m x ↔ ReachedIn tr m x ∨ e.Reaches m x := by
  simp [ReachedIn, or_and_right, exists_or]

theorem Heard.mono {tr tr' : List (Event H)} {m : MessageId} {x : String} (h : Heard tr m x)
    (hsub : tr ⊆ tr') : Heard tr' m x := by
  obtain ⟨e, he, hhears⟩ := h
  exact ⟨e, hsub he, hhears⟩

theorem ReachedIn.mono {tr tr' : List (Event H)} {m : MessageId} {x : String}
    (h : ReachedIn tr m x) (hsub : tr ⊆ tr') : ReachedIn tr' m x := by
  obtain ⟨e, he, hreaches⟩ := h
  exact ⟨e, hsub he, hreaches⟩

section Runs

variable {G : EchoTask H → Event H → Prop} {t₀ : EchoTask H} {a₀ : EchoBroadcastActor H}
  {tr : List (Event H)}

/-- A run that ends alive started alive. -/
theorem alive_of_run (hrun : (machine H).RunWith G t₀ tr t) (ha : t.actor = some a) :
    ∃ a₀, t₀.actor = some a₀ := by
  induction hrun generalizing a with
  | nil => exact ⟨a, ha⟩
  | snoc _ hs _ ih =>
      obtain ⟨a₁, _, ha₁, _⟩ := handled_of_step hs ha
      exact ih ha₁

/-- **A true echo is exactly one that was heard.** -/
theorem heard_iff (hrun : (machine H).RunWith G t₀ tr t) (ha₀ : t₀.actor = some a₀)
    (ha : t.actor = some a) (m : MessageId) (x : String) :
    a.echo m x = some true ↔ a₀.echo m x = some true ∨ Heard tr m x := by
  induction hrun generalizing a with
  | nil =>
      obtain rfl : a₀ = a := Option.some.inj (ha₀.symm.trans ha)
      simp [Heard]
  | snoc _ hs _ ih =>
      obtain ⟨a₁, _, ha₁, _⟩ := handled_of_step hs ha
      rw [(recorded_of_step hs ha₁ ha).heard, ih ha₁, heard_snoc, or_assoc]

/-- **An echo is absent exactly when its party was neither heard nor reached.** -/
theorem absent_iff (hrun : (machine H).RunWith G t₀ tr t) (ha₀ : t₀.actor = some a₀)
    (ha : t.actor = some a) (m : MessageId) (x : String) :
    a.echo m x = none ↔ a₀.echo m x = none ∧ ¬ Heard tr m x ∧ ¬ ReachedIn tr m x := by
  induction hrun generalizing a with
  | nil =>
      obtain rfl : a₀ = a := Option.some.inj (ha₀.symm.trans ha)
      simp [Heard, ReachedIn]
  | snoc _ hs _ ih =>
      obtain ⟨a₁, _, ha₁, _⟩ := handled_of_step hs ha
      rw [(recorded_of_step hs ha₁ ha).absent, ih ha₁, heard_snoc, reachedIn_snoc]
      tauto

/-- **An echo is false exactly when its party was reached and has not been heard.** -/
theorem awaited_iff (hrun : (machine H).RunWith G start tr t) (ha : t.actor = some a)
    (m : MessageId) (x : String) :
    a.echo m x = some false ↔ ¬ Heard tr m x ∧ ReachedIn tr m x := by
  have htrue := heard_iff hrun rfl ha m x
  have hnone := absent_iff hrun rfl ha m x
  rcases h : a.echo m x with _ | _ | _
  · exact iff_of_false (by simp) fun hr => (hnone.mp h).2.2 hr.2
  · have hunheard : ¬ Heard tr m x := fun hheard => by
      cases h.symm.trans (htrue.mpr (Or.inr hheard))
    refine iff_of_true rfl ⟨hunheard, ?_⟩
    by_contra hnot
    cases h.symm.trans (hnone.mpr ⟨rfl, hunheard, hnot⟩)
  · refine iff_of_false (by simp) fun hr => hr.1 ?_
    exact (htrue.mp h).resolve_left (by rintro ⟨⟩)

end Runs

end EchoTask

end FrostFederation.EchoBroadcast
