/-
# FrostFederation.Lib.Actor — objects behind a mailbox, and that their calls are linearizable.

An actor owns an OBJECT and handles one command at a time.  Its clients reach it through a bounded
mailbox: a call puts its command into the mailbox, waits if there is no room, and then waits for the
reply, which comes through a channel of its own.  Any number of calls are under way at a time, and a
client may give one up at any moment, also while its command is in the mailbox.

What the clients see of a run is a HISTORY: when each call was invoked and what it returned.  The history
is linearizable: there is one order of the operations, in which each of them takes effect once and
between its invocation and its return, and in which the object, one command after the other, gives
exactly the replies that were returned.  The order is the one in which the actor handles the commands.
-/
import FrostFederation.Lib.Run
import Mathlib.Data.List.Nodup
import Mathlib.Logic.Function.Basic

namespace FrostFederation.Lib

universe u v w

/-- A sequential object: a command changes the state and has a reply. -/
structure Object (σ : Type u) (κ : Type v) (ρ : Type w) where
  handle : σ → κ → σ × ρ

/-- An operation that has taken effect. -/
structure Operation (κ : Type v) (ρ : Type w) where
  call : ℕ
  command : κ
  reply : ρ

/-- What a client sees. -/
inductive Action (κ : Type v) (ρ : Type w) where
  | invoked (call : ℕ) (command : κ)
  | returned (call : ℕ) (reply : ρ)

section Linearization

variable {σ σ' : Type u} {κ : Type v} {ρ ρ' : Type w}

def Operation.mapReply (g : ρ → ρ') (op : Operation κ ρ) : Operation κ ρ' :=
  ⟨op.call, op.command, g op.reply⟩

def Action.mapReply (g : ρ → ρ') : Action κ ρ → Action κ ρ'
  | .invoked k c => .invoked k c
  | .returned k r => .returned k (g r)

/-- Call `k` returns before call `k'` is invoked. -/
def Precedes (history : List (Action κ ρ)) (k k' : ℕ) : Prop :=
  ∃ pre r mid c post, history = pre ++ .returned k r :: (mid ++ .invoked k' c :: post)

namespace Object

/-- Handled one after the other from `s₀`, the commands have these replies and lead to this state. -/
inductive Legal (O : Object σ κ ρ) (s₀ : σ) : List (Operation κ ρ) → σ → Prop
  | nil : Legal O s₀ [] s₀
  | snoc {ops : List (Operation κ ρ)} {s : σ} (call : ℕ) (command : κ) :
      Legal O s₀ ops s →
        Legal O s₀ (ops ++ [⟨call, command, (O.handle s command).2⟩]) (O.handle s command).1

/-- The operations `ops` are a linearization of the history. -/
structure Linearization (O : Object σ κ ρ) (s₀ : σ) (history : List (Action κ ρ))
    (ops : List (Operation κ ρ)) (s : σ) : Prop where
  legal : O.Legal s₀ ops s
  once : (ops.map Operation.call).Nodup
  invoked : ∀ op ∈ ops, .invoked op.call op.command ∈ history
  returned : ∀ k r, .returned k r ∈ history → ∃ c, ⟨k, c, r⟩ ∈ ops
  realTime : ∀ k k', Precedes history k k' → k' ∈ ops.map Operation.call →
    [k, k'].Sublist (ops.map Operation.call)

/-! ## Between two levels -/

section Map

variable {O : Object σ κ ρ} {O' : Object σ' κ ρ'} {f : σ → σ'} {g : ρ → ρ'}
  (hsim : ∀ s c, O'.handle (f s) c = (f (O.handle s c).1, g (O.handle s c).2))

include hsim in
theorem Legal.map {s₀ s : σ} {ops : List (Operation κ ρ)} (h : O.Legal s₀ ops s) :
    O'.Legal (f s₀) (ops.map (Operation.mapReply g)) (f s) := by
  induction h with
  | nil => exact .nil
  | @snoc ops s call command _ ih =>
      have hlast := Legal.snoc call command ih
      rw [hsim] at hlast
      rwa [List.map_append]

theorem precedes_of_map {history : List (Action κ ρ)} {k k' : ℕ}
    (h : Precedes (history.map (Action.mapReply g)) k k') : Precedes history k k' := by
  obtain ⟨pre, r, mid, c, post, heq⟩ := h
  obtain ⟨pre₁, rest, rfl, -, hrest⟩ := List.map_eq_append_iff.mp heq
  obtain ⟨first, rest₁, rfl, hfirst, hrest₁⟩ := List.map_eq_cons_iff.mp hrest
  obtain ⟨mid₁, rest₂, rfl, -, hrest₂⟩ := List.map_eq_append_iff.mp hrest₁
  obtain ⟨second, post₁, rfl, hsecond, -⟩ := List.map_eq_cons_iff.mp hrest₂
  cases first with
  | invoked => cases hfirst
  | returned k₁ r₁ =>
      cases second with
      | returned => cases hsecond
      | invoked k₂ c₂ =>
          cases hfirst
          cases hsecond
          exact ⟨pre₁, r₁, mid₁, _, post₁, rfl⟩

include hsim in
/-- **A linearization is one at every level the object refines.** -/
theorem Linearization.map {s₀ s : σ} {history : List (Action κ ρ)} {ops : List (Operation κ ρ)}
    (h : O.Linearization s₀ history ops s) :
    O'.Linearization (f s₀) (history.map (Action.mapReply g)) (ops.map (Operation.mapReply g)) (f s) := by
  have hcalls : (ops.map (Operation.mapReply g)).map Operation.call = ops.map Operation.call := by
    rw [List.map_map]
    rfl
  refine ⟨h.legal.map hsim, by rw [hcalls]; exact h.once, ?_, ?_, ?_⟩
  · intro op' hop'
    obtain ⟨op, hop, rfl⟩ := List.mem_map.mp hop'
    exact List.mem_map.mpr ⟨_, h.invoked op hop, rfl⟩
  · intro k r' hr'
    obtain ⟨action, haction, heq⟩ := List.mem_map.mp hr'
    cases action with
    | invoked => cases heq
    | returned k₁ r =>
        cases heq
        obtain ⟨c, hc⟩ := h.returned k r haction
        exact ⟨c, List.mem_map.mpr ⟨_, hc, rfl⟩⟩
  · intro k k' hprecedes hk'
    rw [hcalls] at hk' ⊢
    exact h.realTime k k' (precedes_of_map hprecedes) hk'

end Map

end Object

end Linearization

/-! ## The actor -/

/-- Where a call stands. -/
inductive Call (κ : Type v) (ρ : Type w) where
  | idle
  | sending (command : κ)
  | waiting
  | answered (reply : ρ)
  | over

/-- The object with its mailbox and the calls of its clients. -/
structure Actor (σ : Type u) (κ : Type v) (ρ : Type w) where
  object : σ
  mailbox : List (ℕ × κ)
  calls : ℕ → Call κ ρ
  invoked : ℕ

namespace Actor

variable {σ : Type u} {κ : Type v} {ρ : Type w}

inductive Input (κ : Type v) where
  | invoke (command : κ)
  | send (call : ℕ)
  /-- The actor handles the next command. -/
  | handle
  | finish (call : ℕ)
  | giveUp (call : ℕ)

inductive Event (κ : Type v) (ρ : Type w) where
  | invoked (call : ℕ) (command : κ)
  | sent (call : ℕ)
  | handled (call : ℕ) (command : κ) (reply : ρ)
  | returned (call : ℕ) (reply : ρ)
  | givenUp (call : ℕ)

/-- The reply goes to the call, if its client still waits for it. -/
def answer (calls : ℕ → Call κ ρ) (k : ℕ) (reply : ρ) : ℕ → Call κ ρ :=
  match calls k with
  | .waiting => Function.update calls k (.answered reply)
  | _ => calls

def step (O : Object σ κ ρ) (capacity : ℕ) (s : Actor σ κ ρ) : Input κ →
    Option (Actor σ κ ρ × Event κ ρ)
  | .invoke c =>
      some ({ s with
          calls := Function.update s.calls s.invoked (.sending c)
          invoked := s.invoked + 1 }, .invoked s.invoked c)
  | .send k =>
      match s.calls k with
      | .sending c =>
          if s.mailbox.length < capacity then
            some ({ s with
                mailbox := s.mailbox ++ [(k, c)]
                calls := Function.update s.calls k .waiting }, .sent k)
          else none
      | _ => none
  | .handle =>
      match s.mailbox with
      | [] => none
      | (k, c) :: rest =>
          let r := O.handle s.object c
          some ({ s with object := r.1, mailbox := rest, calls := answer s.calls k r.2 },
            .handled k c r.2)
  | .finish k =>
      match s.calls k with
      | .answered r => some ({ s with calls := Function.update s.calls k .over }, .returned k r)
      | _ => none
  | .giveUp k =>
      match s.calls k with
      | .idle => none
      | .over => none
      | _ => some ({ s with calls := Function.update s.calls k .over }, .givenUp k)

def machine (O : Object σ κ ρ) (capacity : ℕ) : Machine (Actor σ κ ρ) (Input κ) (Event κ ρ) :=
  ⟨step O capacity⟩

def start (s₀ : σ) : Actor σ κ ρ := ⟨s₀, [], fun _ => .idle, 0⟩

def Event.action? : Event κ ρ → Option (Action κ ρ)
  | .invoked k c => some (.invoked k c)
  | .returned k r => some (.returned k r)
  | _ => none

def Event.operation? : Event κ ρ → Option (Operation κ ρ)
  | .handled k c r => some ⟨k, c, r⟩
  | _ => none

/-- What the clients see of a run. -/
def history (tr : List (Event κ ρ)) : List (Action κ ρ) := tr.filterMap Event.action?

/-- The operations in the order in which the actor handles them. -/
def operations (tr : List (Event κ ρ)) : List (Operation κ ρ) := tr.filterMap Event.operation?

/-! ## What one step can do -/

/-- One constructor for each way a step can go. -/
inductive Stepped (O : Object σ κ ρ) (s : Actor σ κ ρ) : Event κ ρ → Actor σ κ ρ → Prop
  | invoked (c : κ) :
      Stepped O s (.invoked s.invoked c)
        { s with calls := Function.update s.calls s.invoked (.sending c), invoked := s.invoked + 1 }
  | sent {k : ℕ} {c : κ} (hcall : s.calls k = .sending c) :
      Stepped O s (.sent k)
        { s with mailbox := s.mailbox ++ [(k, c)], calls := Function.update s.calls k .waiting }
  | handled {k : ℕ} {c : κ} {rest : List (ℕ × κ)} (hmailbox : s.mailbox = (k, c) :: rest) :
      Stepped O s (.handled k c (O.handle s.object c).2)
        { s with
          object := (O.handle s.object c).1, mailbox := rest
          calls := answer s.calls k (O.handle s.object c).2 }
  | returned {k : ℕ} {r : ρ} (hcall : s.calls k = .answered r) :
      Stepped O s (.returned k r) { s with calls := Function.update s.calls k .over }
  | givenUp {k : ℕ} (hcall : s.calls k ≠ .idle) :
      Stepped O s (.givenUp k) { s with calls := Function.update s.calls k .over }

theorem stepped_of_step {O : Object σ κ ρ} {capacity : ℕ} {s s' : Actor σ κ ρ} {input : Input κ}
    {ev : Event κ ρ} (h : (machine O capacity).step s input = some (s', ev)) : Stepped O s ev s' := by
  cases input with
  | invoke c =>
      obtain ⟨rfl, rfl⟩ := Prod.mk.inj (Option.some.inj h)
      exact .invoked c
  | send k =>
      simp only [machine, step] at h
      split at h
      · next c hcall =>
          split at h
          · obtain ⟨rfl, rfl⟩ := Prod.mk.inj (Option.some.inj h)
            exact .sent hcall
          · cases h
      · cases h
  | handle =>
      simp only [machine, step] at h
      split at h
      · cases h
      · next k c rest hmailbox =>
          obtain ⟨rfl, rfl⟩ := Prod.mk.inj (Option.some.inj h)
          exact .handled hmailbox
  | finish k =>
      simp only [machine, step] at h
      split at h
      · next r hcall =>
          obtain ⟨rfl, rfl⟩ := Prod.mk.inj (Option.some.inj h)
          exact .returned hcall
      · cases h
  | giveUp k =>
      simp only [machine, step] at h
      split at h
      · cases h
      · cases h
      · next hidle _ =>
          obtain ⟨rfl, rfl⟩ := Prod.mk.inj (Option.some.inj h)
          exact .givenUp hidle

/-! ## The account of a run -/

theorem history_snoc (tr : List (Event κ ρ)) (ev : Event κ ρ) :
    history (tr ++ [ev]) = history tr ++ ev.action?.toList := by
  cases ev <;> simp [history, Event.action?]

theorem operations_snoc (tr : List (Event κ ρ)) (ev : Event κ ρ) :
    operations (tr ++ [ev]) = operations tr ++ ev.operation?.toList := by
  cases ev <;> simp [operations, Event.operation?]

/-- The calls whose commands have been handled, and those whose commands are in the mailbox. -/
def accepted (tr : List (Event κ ρ)) (s : Actor σ κ ρ) : List ℕ :=
  (operations tr).map Operation.call ++ s.mailbox.map Prod.fst

/-- What a run from `s₀` leaves behind. -/
structure Account (O : Object σ κ ρ) (s₀ : σ) (tr : List (Event κ ρ)) (s : Actor σ κ ρ) : Prop where
  legal : O.Legal s₀ (operations tr) s.object
  fresh : ∀ k, s.invoked ≤ k → s.calls k = .idle
  once : (accepted tr s).Nodup
  opened : ∀ k ∈ accepted tr s, k < s.invoked
  sending : ∀ k c, s.calls k = .sending c → .invoked k c ∈ history tr ∧ k ∉ accepted tr s
  queued : ∀ x ∈ s.mailbox, .invoked x.1 x.2 ∈ history tr
  handled : ∀ op ∈ operations tr, .invoked op.call op.command ∈ history tr
  answered : ∀ k r, s.calls k = .answered r → ∃ c, ⟨k, c, r⟩ ∈ operations tr
  returned : ∀ k r, .returned k r ∈ history tr → ∃ c, ⟨k, c, r⟩ ∈ operations tr

theorem account_start (O : Object σ κ ρ) (s₀ : σ) : Account O s₀ [] (start s₀) where
  legal := .nil
  fresh := fun _ _ => rfl
  once := .nil
  opened := by simp [accepted, operations, start]
  sending := by simp [start]
  queued := by simp [start]
  handled := by simp [operations]
  answered := by simp [start]
  returned := by simp [history]

/-- A call is as it was, or it has waited and is answered. -/
theorem answer_cases (calls : ℕ → Call κ ρ) (k : ℕ) (r : ρ) (k' : ℕ) :
    answer calls k r k' = calls k' ∨
      (k' = k ∧ calls k = .waiting ∧ answer calls k r k' = .answered r) := by
  cases hcall : calls k with
  | waiting =>
      by_cases hk : k' = k
      · exact Or.inr ⟨hk, rfl, by simp [answer, hcall, hk]⟩
      · exact Or.inl (by simp [answer, hcall, Function.update_of_ne hk])
  | _ => exact Or.inl (by simp [answer, hcall])

theorem mem_history_snoc {tr : List (Event κ ρ)} {action : Action κ ρ} (ev : Event κ ρ)
    (h : action ∈ history tr) : action ∈ history (tr ++ [ev]) := by
  rw [history_snoc]
  exact List.mem_append_left _ h

section Step

variable {O : Object σ κ ρ} {s₀ : σ} {tr : List (Event κ ρ)} {s : Actor σ κ ρ} (h : Account O s₀ tr s)

include h in
theorem account_invoked (c : κ) :
    Account O s₀ (tr ++ [.invoked s.invoked c])
      { s with calls := Function.update s.calls s.invoked (.sending c), invoked := s.invoked + 1 } := by
  have hops : operations (tr ++ [.invoked s.invoked c]) = operations tr := by
    simp [operations_snoc, Event.operation?]
  refine
    { legal := by rw [hops]; exact h.legal
      fresh := ?_
      once := by rw [accepted, hops]; exact h.once
      opened := by
        rw [accepted, hops]
        exact fun k hk => Nat.lt_succ_of_lt (h.opened k hk)
      sending := ?_
      queued := fun x hx => mem_history_snoc _ (h.queued x hx)
      handled := by rw [hops]; exact fun op hop => mem_history_snoc _ (h.handled op hop)
      answered := ?_
      returned := ?_ }
  · intro k hk
    exact (Function.update_of_ne (Nat.ne_of_gt hk) _ _).trans (h.fresh k (Nat.le_of_succ_le hk))
  · intro k c' hk
    rw [accepted, hops]
    by_cases heq : k = s.invoked
    · subst heq
      simp only [Function.update_self, Call.sending.injEq] at hk
      subst hk
      refine ⟨?_, fun hmem => Nat.lt_irrefl _ (h.opened _ hmem)⟩
      simp [history_snoc, Event.action?]
    · simp only [Function.update_of_ne heq] at hk
      obtain ⟨hinvoked, hnot⟩ := h.sending k c' hk
      exact ⟨mem_history_snoc _ hinvoked, hnot⟩
  · intro k r hk
    rw [hops]
    by_cases heq : k = s.invoked
    · simp [heq] at hk
    · simp only [Function.update_of_ne heq] at hk
      exact h.answered k r hk
  · intro k r hmem
    rw [hops]
    exact h.returned k r (by simpa [history_snoc, Event.action?] using hmem)

include h in
theorem account_sent {k : ℕ} {c : κ} (hcall : s.calls k = .sending c) :
    Account O s₀ (tr ++ [.sent k])
      { s with mailbox := s.mailbox ++ [(k, c)], calls := Function.update s.calls k .waiting } := by
  obtain ⟨hinvoked, hnot⟩ := h.sending k c hcall
  have hops : operations (tr ++ [.sent k]) = operations tr := by
    simp [operations_snoc, Event.operation?]
  have haccepted : accepted (tr ++ [.sent k]) { s with
      mailbox := s.mailbox ++ [(k, c)], calls := Function.update s.calls k .waiting } =
      accepted tr s ++ [k] := by
    rw [accepted, accepted, hops, List.map_append, List.append_assoc]
    rfl
  have hopen : k < s.invoked := by
    by_contra hge
    rw [h.fresh k (Nat.le_of_not_lt hge)] at hcall
    cases hcall
  refine
    { legal := by rw [hops]; exact h.legal
      fresh := ?_
      once := ?_
      opened := ?_
      sending := ?_
      queued := ?_
      handled := by rw [hops]; exact fun op hop => mem_history_snoc _ (h.handled op hop)
      answered := ?_
      returned := ?_ }
  · intro k' hk'
    have hne : k' ≠ k := Nat.ne_of_gt (Nat.lt_of_lt_of_le hopen hk')
    exact (Function.update_of_ne hne _ _).trans (h.fresh k' hk')
  · rw [haccepted]
    exact List.nodup_append'.mpr ⟨h.once, List.nodup_singleton k, by simpa using hnot⟩
  · rw [haccepted]
    intro k' hk'
    rcases List.mem_append.mp hk' with hbefore | hnow
    · exact h.opened k' hbefore
    · rw [List.mem_singleton.mp hnow]
      exact hopen
  · intro k' c' hk'
    rw [haccepted]
    by_cases heq : k' = k
    · simp [heq] at hk'
    · simp only [Function.update_of_ne heq] at hk'
      obtain ⟨hinvoked', hnot'⟩ := h.sending k' c' hk'
      exact ⟨mem_history_snoc _ hinvoked', by simp [hnot', heq]⟩
  · intro x hx
    rcases List.mem_append.mp hx with hbefore | hnow
    · exact mem_history_snoc _ (h.queued x hbefore)
    · rw [List.mem_singleton.mp hnow]
      exact mem_history_snoc _ hinvoked
  · intro k' r hk'
    rw [hops]
    by_cases heq : k' = k
    · simp [heq] at hk'
    · simp only [Function.update_of_ne heq] at hk'
      exact h.answered k' r hk'
  · intro k' r hmem
    rw [hops]
    exact h.returned k' r (by simpa [history_snoc, Event.action?] using hmem)

include h in
theorem account_handled {k : ℕ} {c : κ} {rest : List (ℕ × κ)} (hmailbox : s.mailbox = (k, c) :: rest) :
    Account O s₀ (tr ++ [.handled k c (O.handle s.object c).2])
      { s with
        object := (O.handle s.object c).1, mailbox := rest
        calls := answer s.calls k (O.handle s.object c).2 } := by
  have hops : operations (tr ++ [.handled k c (O.handle s.object c).2]) =
      operations tr ++ [⟨k, c, (O.handle s.object c).2⟩] := by
    simp [operations_snoc, Event.operation?]
  -- the command was accepted before
  have haccepted : accepted (tr ++ [.handled k c (O.handle s.object c).2]) { s with
      object := (O.handle s.object c).1, mailbox := rest
      calls := answer s.calls k (O.handle s.object c).2 } = accepted tr s := by
    rw [accepted, accepted, hops, hmailbox, List.map_append, List.append_assoc]
    rfl
  have hhead : (k, c) ∈ s.mailbox := by
    rw [hmailbox]
    exact List.mem_cons_self
  have hcases := answer_cases s.calls k (O.handle s.object c).2
  refine
    { legal := by rw [hops]; exact .snoc k c h.legal
      fresh := ?_
      once := by rw [haccepted]; exact h.once
      opened := by rw [haccepted]; exact h.opened
      sending := ?_
      queued := fun x hx =>
        mem_history_snoc _ (h.queued x (by rw [hmailbox]; exact List.mem_cons_of_mem _ hx))
      handled := ?_
      answered := ?_
      returned := ?_ }
  · intro k' hk'
    rcases hcases k' with hsame | ⟨rfl, hwaiting, -⟩
    · exact hsame.trans (h.fresh k' hk')
    · rw [h.fresh k' hk'] at hwaiting
      cases hwaiting
  · intro k' c' hk'
    rw [haccepted]
    rcases hcases k' with hsame | ⟨-, -, hanswered⟩
    · obtain ⟨hinvoked, hnot⟩ := h.sending k' c' (hsame.symm.trans hk')
      exact ⟨mem_history_snoc _ hinvoked, hnot⟩
    · cases hanswered.symm.trans hk'
  · rw [hops]
    intro op hop
    rcases List.mem_append.mp hop with hbefore | hnow
    · exact mem_history_snoc _ (h.handled op hbefore)
    · rw [List.mem_singleton.mp hnow]
      exact mem_history_snoc _ (h.queued _ hhead)
  · intro k' r hk'
    rw [hops]
    rcases hcases k' with hsame | ⟨rfl, -, hanswered⟩
    · obtain ⟨c', hc'⟩ := h.answered k' r (hsame.symm.trans hk')
      exact ⟨c', List.mem_append_left _ hc'⟩
    · cases hanswered.symm.trans hk'
      exact ⟨c, List.mem_append_right _ List.mem_cons_self⟩
  · intro k' r hmem
    rw [hops]
    obtain ⟨c', hc'⟩ := h.returned k' r (by simpa [history_snoc, Event.action?] using hmem)
    exact ⟨c', List.mem_append_left _ hc'⟩

include h in
/-- A call is over: it has returned, or it has been given up. -/
theorem account_over {ev : Event κ ρ} {k : ℕ} (hcall : s.calls k ≠ .idle)
    (hoperation : ev.operation? = none)
    (hhistory : ∀ action ∈ ev.action?, ∃ r, action = .returned k r ∧ s.calls k = .answered r) :
    Account O s₀ (tr ++ [ev]) { s with calls := Function.update s.calls k .over } := by
  have hops : operations (tr ++ [ev]) = operations tr := by
    rw [operations_snoc, hoperation, Option.toList_none, List.append_nil]
  have haccepted : accepted (tr ++ [ev]) { s with calls := Function.update s.calls k .over } =
      accepted tr s := by rw [accepted, accepted, hops]
  -- a call that is not over is another one
  have hother : ∀ {k' : ℕ} {call : Call κ ρ}, Function.update s.calls k .over k' = call →
      call ≠ .over → s.calls k' = call := by
    intro k' call hk' hne
    by_cases heq : k' = k
    · rw [heq, Function.update_self] at hk'
      exact absurd hk'.symm hne
    · rwa [Function.update_of_ne heq] at hk'
  refine
    { legal := by rw [hops]; exact h.legal
      fresh := ?_
      once := by rw [haccepted]; exact h.once
      opened := by rw [haccepted]; exact h.opened
      sending := ?_
      queued := fun x hx => mem_history_snoc _ (h.queued x hx)
      handled := by rw [hops]; exact fun op hop => mem_history_snoc _ (h.handled op hop)
      answered := ?_
      returned := ?_ }
  · intro k' hk'
    have hne : k' ≠ k := by
      rintro rfl
      exact hcall (h.fresh k' hk')
    exact (Function.update_of_ne hne _ _).trans (h.fresh k' hk')
  · intro k' c hk'
    rw [haccepted]
    obtain ⟨hinvoked, hnot⟩ := h.sending k' c (hother hk' nofun)
    exact ⟨mem_history_snoc _ hinvoked, hnot⟩
  · intro k' r hk'
    rw [hops]
    exact h.answered k' r (hother hk' nofun)
  · intro k' r hmem
    rw [hops]
    rw [history_snoc] at hmem
    rcases List.mem_append.mp hmem with hbefore | hnow
    · exact h.returned k' r hbefore
    · obtain ⟨r', heq, hanswered⟩ := hhistory _ (Option.mem_toList.mp hnow)
      cases heq
      exact h.answered _ r hanswered

include h in
/-- **A step keeps the account.** -/
theorem account_step {s' : Actor σ κ ρ} {ev : Event κ ρ} (hs : Stepped O s ev s') :
    Account O s₀ (tr ++ [ev]) s' := by
  cases hs with
  | invoked c => exact account_invoked h c
  | sent hcall => exact account_sent h hcall
  | handled hmailbox => exact account_handled h hmailbox
  | returned hcall =>
      refine account_over h (by rw [hcall]; exact nofun) rfl ?_
      rintro action ⟨⟩
      exact ⟨_, rfl, hcall⟩
  | givenUp hcall => exact account_over h hcall rfl nofun

end Step

/-! ## Linearizability -/

section Runs

variable {O : Object σ κ ρ} {capacity : ℕ} {s₀ : σ} {tr : List (Event κ ρ)} {s : Actor σ κ ρ}

theorem account_of_run (hrun : (machine O capacity).Run (start s₀) tr s) : Account O s₀ tr s :=
  hrun.invariant (account_start O s₀) fun _ ih hs _ => account_step ih (stepped_of_step hs)

/-- A call that is invoked after another one has returned takes effect after it. -/
theorem sublist_of_precedes (hrun : (machine O capacity).Run (start s₀) tr s) {k k' : ℕ}
    (hprecedes : Precedes (history tr) k k')
    (hk' : k' ∈ (operations tr).map Operation.call) :
    [k, k'].Sublist ((operations tr).map Operation.call) := by
  obtain ⟨pre, r, mid, c, post, heq⟩ := hprecedes
  -- the run up to the invocation of the second call
  have hsplit : history tr = (pre ++ .returned k r :: mid) ++ .invoked k' c :: post := by
    rw [heq, List.append_assoc, List.cons_append]
  obtain ⟨tr₁, rest, rfl, hbefore, hrest⟩ := List.filterMap_eq_append_iff.mp hsplit
  obtain ⟨quiet, ev, after, rfl, hquiet, hev, hafter⟩ := List.filterMap_eq_cons_iff.mp hrest
  have hcase : ev = .invoked k' c := by
    cases ev <;> simp_all [Event.action?]
  subst hcase
  rw [← List.append_assoc] at hrun
  obtain ⟨s₁, i, s₂, hrun₁, hs, -, -⟩ := hrun.around
  have haccount := account_of_run hrun₁
  have hreturned : .returned k r ∈ history (tr₁ ++ quiet) := by
    rw [history, List.filterMap_append]
    refine List.mem_append_left _ ?_
    rw [hbefore]
    exact List.mem_append_right _ List.mem_cons_self
  obtain ⟨c₁, hop⟩ := haccount.returned k r hreturned
  have hk : k ∈ (operations (tr₁ ++ quiet)).map Operation.call := List.mem_map.mpr ⟨_, hop, rfl⟩
  have hnot : k' ∉ (operations (tr₁ ++ quiet)).map Operation.call := by
    intro hmem
    have hlt := haccount.opened k' (List.mem_append_left _ hmem)
    cases stepped_of_step hs
    exact Nat.lt_irrefl _ hlt
  have hall : operations (tr₁ ++ (quiet ++ .invoked k' c :: after)) =
      operations (tr₁ ++ quiet) ++ operations (.invoked k' c :: after) := by
    rw [← List.append_assoc, operations, List.filterMap_append]
    rfl
  rw [hall, List.map_append] at hk' ⊢
  have hlater := (List.mem_append.mp hk').resolve_left hnot
  exact (List.singleton_sublist.mpr hk).append (List.singleton_sublist.mpr hlater)

/-- **The calls of an actor are linearizable**, in the order in which it handles their commands. -/
theorem linearization_of_run (hrun : (machine O capacity).Run (start s₀) tr s) :
    O.Linearization s₀ (history tr) (operations tr) s.object := by
  have haccount := account_of_run hrun
  exact
    { legal := haccount.legal
      once := (List.nodup_append'.mp haccount.once).1
      invoked := haccount.handled
      returned := haccount.returned
      realTime := fun _ _ => sublist_of_precedes hrun }

end Runs

end Actor

end FrostFederation.Lib
