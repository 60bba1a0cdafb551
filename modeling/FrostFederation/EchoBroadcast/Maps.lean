/-
# FrostFederation.EchoBroadcast.Maps — the three maps of the actor after any run.

`message_echos` is the exact record of a run, and the other two maps are tied to it: a waiter is
stored beside the members of its broadcast, and those are all on record (`Tied`).  Two things follow
from how the record is kept.  The entry of an id exists exactly when somebody was heard or reached
under it, so a Send that finds nobody to send to panics unless the id is already on record.  And
the loop of a Send records each member as soon as it is reached, so a Send that fails later leaves
the members before the failing one behind: which they are depends on the order of iteration.
-/
import FrostFederation.EchoBroadcast.Safety

namespace FrostFederation.EchoBroadcast

open FrostFederation.Lib
open FrostFederation.Protocol

namespace EchoTask

variable {H : Type} {G : EchoTask H → Event H → Prop} {t t' : EchoTask H} {c : Call H}
  {e : Event H} {a a' : EchoBroadcastActor H} {tr : List (Event H)}
  {data : Message} {members : ReliableSenderMap H} {m : MessageId} {tx : Oneshot}

/-! ## The exact record -/

/-- A waiter is stored beside the members of its broadcast, and every stored member is on record. -/
structure Tied (a : EchoBroadcastActor H) : Prop where
  waiters : ∀ m ∈ a.messageClientTxs, m ∈ a.reliableSenders
  members : ∀ m members, a.reliableSenders.lookup m = some members → ∀ x ∈ members.keys,
    a.echo m x ≠ none

theorem tied_start : Tied (EchoBroadcastActor.start : EchoBroadcastActor H) where
  waiters := fun _ hm => absurd hm (AList.notMem_empty _)
  members := by
    intro m members hl
    cases hl

/-- A step that stores no members and no waiter, and forgets no party, keeps the maps tied. -/
theorem tied_of_kept (h : Tied a) (hsenders : a'.reliableSenders = a.reliableSenders)
    (htxs : ∀ m ∈ a'.messageClientTxs, m ∈ a.messageClientTxs)
    (hkeep : ∀ m x, a.echo m x ≠ none → a'.echo m x ≠ none) : Tied a' where
  waiters := by
    intro m hm
    rw [hsenders]
    exact h.waiters m (htxs m hm)
  members := by
    intro m members hl x hx
    rw [hsenders] at hl
    exact hkeep m x (h.members m members hl x hx)

theorem tied_step (h : Tied a) (hs : (machine H).step t c = some (t', e)) (ha : t.actor = some a)
    (ha' : t'.actor = some a') : Tied a' := by
  have hrec := recorded_of_step hs ha ha'
  have hkeep : ∀ m x, a.echo m x ≠ none → a'.echo m x ≠ none := by
    intro m x hx hnone
    exact hx ((hrec.absent m x).mp hnone).1
  obtain ⟨a₁, ha₁, hh⟩ := handled_cases hs ha'
  obtain rfl : a = a₁ := Option.some.inj (ha.symm.trans ha₁)
  cases hh with
  | sendFailed _ _ _ _ _ _ _ hsenders htxs =>
      refine tied_of_kept h hsenders ?_ hkeep
      intro m hm
      rwa [htxs] at hm
  | echoAwaited _ _ _ _ _ hsenders htxs =>
      refine tied_of_kept h hsenders ?_ hkeep
      intro m hm
      rwa [htxs] at hm
  | echoCompleted _ _ _ _ _ hsenders htxs =>
      refine tied_of_kept h hsenders ?_ hkeep
      intro m hm
      rw [htxs, AList.mem_erase] at hm
      exact hm.2
  | @sendCompleted data members tx m _ hcmd hid _ _ _ hreached heff hsenders htxs =>
      constructor
      · intro k hk
        rw [htxs, AList.mem_insert] at hk
        rw [hsenders, AList.mem_insert]
        exact hk.imp_right (h.waiters k)
      · intro k members' hl x hx hnone
        obtain ⟨hold, -, hnot⟩ := (hrec.absent k x).mp hnone
        rw [hsenders, HashMap.lookup_insert_eq_ite] at hl
        split at hl
        · next hk =>
            -- the members of this Send were reached by it
            obtain rfl := Option.some.inj hl
            subst hk
            exact hnot (reaches_of_completed hcmd hid hreached heff x hx)
        · exact h.members k members' hl x hx hold

/-- The maps are tied together after every run that ends alive. -/
theorem tied_of_run (hrun : (machine H).RunWith G start tr t) (ha : t.actor = some a) : Tied a := by
  induction hrun generalizing a with
  | nil =>
      obtain rfl : EchoBroadcastActor.start = a := Option.some.inj ha
      exact tied_start
  | snoc _ hs _ ih =>
      obtain ⟨a₁, _, ha₁, _⟩ := handled_of_step hs ha
      exact tied_step (ih ha₁) hs ha₁ ha

/-- **The maps are the exact record of the run.**  An echo is true exactly for the parties that were
heard and false exactly for those that were reached and not heard, and a waiter is stored only
beside its members, which are all on record. -/
theorem record_exact (hrun : (machine H).Run start tr t) (ha : t.actor = some a) (m : MessageId)
    (x : String) :
    (a.echo m x = some true ↔ ∃ e ∈ tr, e.EchoOf m x ∨ e.SendOf m x) ∧
      (a.echo m x = some false ↔
        (¬ ∃ e ∈ tr, e.EchoOf m x ∨ e.SendOf m x) ∧ ∃ e ∈ tr, e.Reaches m x) ∧
      (m ∈ a.messageClientTxs → m ∈ a.reliableSenders) ∧
      ∀ members, a.reliableSenders.lookup m = some members → x ∈ members.keys →
        ∃ received, a.messageEchos.lookup m = some received ∧ x ∈ received.keys := by
  have htied := tied_of_run hrun ha
  refine ⟨?_, awaited_iff hrun ha m x, htied.waiters m, ?_⟩
  · rw [heard_iff hrun rfl ha m x]
    exact or_iff_right (by rintro ⟨⟩)
  · intro members hl hx
    obtain ⟨b, hb⟩ := Option.ne_none_iff_exists'.mp (htied.members m members hl x hx)
    obtain ⟨received, hreceived, hentry⟩ := Option.bind_eq_some_iff.mp hb
    exact ⟨received, hreceived, (HashMap.mem_keys_iff_lookup received x).mpr ⟨b, hentry⟩⟩

/-- After a broadcast to two members and both their echos the first of them is on record. -/
theorem record_exact_echoedByBoth :
    ∃ a, (runCalls start echoedByBoth).1.actor = some a ∧ a.echo ⟨1⟩ "b" = some true ∧
      (a.echo ⟨1⟩ "b" = some true ↔
        ∃ e ∈ (runCalls start echoedByBoth).2, e.EchoOf ⟨1⟩ "b" ∨ e.SendOf ⟨1⟩ "b") :=
  ⟨_, rfl, by decide, (record_exact (run_runCalls start echoedByBoth) rfl ⟨1⟩ "b").1⟩

/-! ## Which commands find no entry -/

/-- No entry of `message_echos` is empty: each is created with the party it is created for. -/
theorem filled_of_sendMessage {reach : String → Bool} {effects : List (Effect H)}
    {result : ConnectionResult} (hfilled : HashMap.Filled a.messageEchos)
    (h : a.sendMessage reach data members tx = some (a', effects, result)) :
    HashMap.Filled a'.messageEchos := by
  obtain ⟨m, echos, sent, -, hcases⟩ := EchoBroadcastActor.sendMessage_cases h
  -- what the loop leaves: whoever gives a new entry its key is found in it
  have hloop : ∀ ok, EchoBroadcastActor.sendToMembers reach data m members.entries a.messageEchos =
      (echos, sent, ok) → HashMap.Filled echos := by
    intro ok hloop k hnone
    have hlookup := EchoBroadcastActor.sendToMembers_lookup reach data m members.entries
      a.messageEchos k
    rw [hloop] at hlookup
    rw [hlookup]
    constructor
    · apply hfilled
      intro x
      exact ((recorded_of_loop hloop k x).2.mp (hnone x)).1
    · rintro ⟨hk, x, hx⟩
      exact ((recorded_of_loop hloop k x).2.mp (hnone x)).2 ⟨hk, hx⟩
  rcases hcases with ⟨hfailed, rfl, -⟩ | ⟨hcompleted, ⟨received, -, rfl⟩, -⟩
  · exact hloop false hfailed
  · exact HashMap.filled_insert (hloop true hcompleted) m received data.getSenderId true

theorem filled_of_addEcho (hfilled : HashMap.Filled a.messageEchos) (m : MessageId) (x : String) :
    HashMap.Filled (a.addEcho m x).messageEchos := by
  unfold EchoBroadcastActor.addEcho
  cases a.messageEchos.lookup m with
  | none => exact HashMap.filled_insert hfilled m ∅ x true
  | some echos => exact HashMap.filled_insert hfilled m echos x true

theorem filled_step (hfilled : HashMap.Filled a.messageEchos)
    (hs : (machine H).step t c = some (t', e)) (ha : t.actor = some a)
    (ha' : t'.actor = some a') : HashMap.Filled a'.messageEchos := by
  obtain ⟨a₁, result, ha₁, -, -, -, hh⟩ := handled_of_step hs ha'
  obtain rfl : a = a₁ := Option.some.inj (ha.symm.trans ha₁)
  cases hcmd : e.command with
  | send data members tx =>
      rw [hcmd] at hh
      exact filled_of_sendMessage hfilled hh
  | echo data =>
      rw [hcmd] at hh
      obtain ⟨⟨a₂, effects⟩, hr, heq⟩ := Option.map_eq_some_iff.mp hh
      obtain rfl : a₂ = a' := congrArg Prod.fst heq
      obtain ⟨m, -, ⟨-, rfl, -⟩ | ⟨-, rfl, -⟩⟩ := EchoBroadcastActor.handleReceivedEcho_cases hr
      · exact filled_of_addEcho hfilled m data.getSenderId
      · exact filled_of_addEcho hfilled m data.getSenderId

theorem filled_of_run (hrun : (machine H).RunWith G start tr t) (ha : t.actor = some a) :
    HashMap.Filled a.messageEchos := by
  induction hrun generalizing a with
  | nil =>
      obtain rfl : EchoBroadcastActor.start = a := Option.some.inj ha
      exact HashMap.filled_empty
  | snoc _ hs _ ih =>
      obtain ⟨a₁, _, ha₁, _⟩ := handled_of_step hs ha
      exact filled_step (ih ha₁) hs ha₁ ha

/-- An id has an entry exactly when somebody was heard or reached under it. -/
theorem entry_iff (hrun : (machine H).RunWith G start tr t) (ha : t.actor = some a)
    (m : MessageId) :
    a.messageEchos.lookup m = none ↔ ∀ x, ¬ Heard tr m x ∧ ¬ ReachedIn tr m x := by
  constructor
  · intro hnone x
    have habsent : a.echo m x = none := by simp [EchoBroadcastActor.echo, HashMap.lookup₂, hnone]
    exact ((absent_iff hrun rfl ha m x).mp habsent).2
  · intro hno
    apply filled_of_run hrun ha
    intro x
    exact (absent_iff hrun rfl ha m x).mpr ⟨rfl, hno x⟩

/-- **Which commands with an id are handled.**  After every run, an Echo always; a Send exactly when
there is a member to send to, or somebody has been heard or reached under its id before. -/
theorem handles_iff (hrun : (machine H).Run start tr t) (ha : t.actor = some a)
    (reach : String → Bool) (hid : data.getMessageId = some m) :
    a.handleMessage reach (.echo data) ≠ none ∧
      ∀ members tx, a.handleMessage reach (.send data members tx) ≠ none ↔
        members.keys ≠ [] ∨ ∃ x, Heard tr m x ∨ ReachedIn tr m x := by
  constructor
  · apply handleMessage_ne_none
    show data.getMessageId.isSome = true
    rw [hid]
    rfl
  · intro members tx
    show a.sendMessage reach data members tx ≠ none ↔ _
    rw [Ne, sendMessage_eq_none_iff hid, entry_iff hrun ha m, not_and_or, not_forall]
    refine or_congr_right (exists_congr fun x => ?_)
    rw [← not_or, not_not]

/-- The echo of a broadcast, before its Send. -/
def echoAlone : List (Call Unit) := [.echo (Message.package "b" "hello" 1)]

/-- The echo makes the entry that a Send to nobody needs. -/
theorem handles_iff_echoAlone :
    ∃ a, (runCalls start echoAlone).1.actor = some a ∧
      (a.handleMessage (fun _ => true) (.send (Message.package "a" "hello" 1) ∅ 0) ≠ none ↔
        (∅ : ReliableSenderMap Unit).keys ≠ [] ∨
          ∃ x, Heard (runCalls start echoAlone).2 ⟨1⟩ x ∨
            ReachedIn (runCalls start echoAlone).2 ⟨1⟩ x) :=
  ⟨_, rfl, (handles_iff (run_runCalls start echoAlone) rfl (fun _ => true) rfl).2 ∅ 0⟩

/-! ## What a Send that fails leaves behind -/

/-- The three maps hold the same. -/
structure Unchanged (a a' : EchoBroadcastActor H) : Prop where
  entries : ∀ k, a'.messageEchos.lookup k = none ↔ a.messageEchos.lookup k = none
  echos : ∀ k x, a'.echo k x = a.echo k x
  senders : a'.reliableSenders = a.reliableSenders
  waiters : a'.messageClientTxs = a.messageClientTxs

section Failed

variable {reach : String → Bool} {effects : List (Effect H)} {text : String}

/-- A Send that fails leaves the maps unchanged exactly when everybody it reached was on record. -/
theorem unchanged_of_failed (hid : data.getMessageId = some m)
    (h : a.sendMessage reach data members tx = some (a', effects, .error text)) :
    Unchanged a a' ↔ ∀ x, EchoBroadcastActor.Reached effects x → a.echo m x ≠ none := by
  simp only [reached_sendMessage hid h]
  obtain ⟨k, echos, sent, hk, ⟨hloop, rfl, -⟩ | ⟨-, -, -, hok⟩⟩ :=
    EchoBroadcastActor.sendMessage_cases h
  swap
  · cases hok
  obtain rfl : m = k := Option.some.inj (hid.symm.trans hk)
  rw [hloop]
  constructor
  · intro hsame x hx hnone
    have hafter : HashMap.lookup₂ echos m x = none := (hsame.echos m x).trans hnone
    exact ((recorded_of_loop hloop m x).2.mp hafter).2 ⟨rfl, hx⟩
  · intro hrecorded
    refine ⟨?_, ?_, rfl, rfl⟩
    · intro k
      have hlookup := EchoBroadcastActor.sendToMembers_lookup reach data m members.entries
        a.messageEchos k
      rw [hloop] at hlookup
      refine hlookup.trans (and_iff_left_of_imp ?_)
      rintro hnone ⟨rfl, x, hx⟩
      exact hrecorded x hx (by simp [EchoBroadcastActor.echo, HashMap.lookup₂, hnone])
    · intro k x
      obtain ⟨htrue, hnone⟩ := recorded_of_loop hloop k x
      refine eq_of_true_iff_of_none_iff htrue (hnone.trans (and_iff_left_of_imp ?_))
      rintro habsent ⟨rfl, hx⟩
      exact hrecorded x hx habsent

/-- A Send that does not reach all its members answers its client with an error and returns one. -/
theorem sendMessage_of_unreached (hid : data.getMessageId = some m)
    (hfail : ∃ x ∈ members.keys, reach x = false) (a : EchoBroadcastActor H) (tx : Oneshot) :
    ∃ a' effects, a.sendMessage reach data members tx =
        some (a', effects, .error "Error sending message using reliable sender") ∧
      Effect.respond tx (.error "Error sending using reliable sender") ∈ effects := by
  have hnot : ¬ ∀ x ∈ members.keys, reach x = true := by
    obtain ⟨x, hx, hunreached⟩ := hfail
    intro hall
    exact Bool.false_ne_true (hunreached.symm.trans (hall x hx))
  rw [← sendToMembers_ok_iff reach data m members a.messageEchos, Bool.not_eq_true] at hnot
  rcases hloop : EchoBroadcastActor.sendToMembers reach data m members.entries a.messageEchos with
    ⟨echos, sent, ok⟩
  rw [hloop] at hnot
  subst hnot
  refine ⟨{ a with messageEchos := echos },
    sent ++ [.respond tx (.error "Error sending using reliable sender")], ?_, by simp⟩
  simp only [EchoBroadcastActor.sendMessage, hid, hloop]

/-- **A Send that fails leaves the maps unchanged, in whatever order its members are iterated,
exactly when every member it can reach is already on record.** -/
theorem unchanged_iff (a : EchoBroadcastActor H) (members : ReliableSenderMap H) (tx : Oneshot)
    (hid : data.getMessageId = some m) (hfail : ∃ x ∈ members.keys, reach x = false) :
    (∀ order : ReliableSenderMap H, order.entries.Perm members.entries →
      ∃ a' effects text, a.sendMessage reach data order tx = some (a', effects, .error text) ∧
        (∃ text', Effect.respond tx (.error text') ∈ effects) ∧ Unchanged a a') ↔
      ∀ x ∈ members.keys, reach x = true → a.echo m x ≠ none := by
  have hkeys : ∀ order : ReliableSenderMap H, order.entries.Perm members.entries →
      ∀ x, x ∈ order.keys ↔ x ∈ members.keys := by
    intro order hperm x
    simp only [← exists_entry_iff_mem_keys, hperm.mem_iff]
  constructor
  · intro hsame x hx hreach
    obtain ⟨handle, hhandle⟩ := (HashMap.mem_keys_iff_lookup members x).mp hx
    -- iterate `x` first: it is reached before the loop fails
    obtain ⟨a', effects, text, hsend, -, hunchanged⟩ :=
      hsame (members.insert x handle) (HashMap.insert_perm_of_lookup hhandle)
    apply (unchanged_of_failed hid hsend).mp hunchanged
    rw [reached_sendMessage hid hsend, AList.entries_insert]
    exact EchoBroadcastActor.reached_of_first reach data m _ _ hreach
  · intro hrecorded order hperm
    obtain ⟨y, hy, hunreached⟩ := hfail
    obtain ⟨a', effects, hsend, hrespond⟩ := sendMessage_of_unreached hid
      ⟨y, (hkeys order hperm y).mpr hy, hunreached⟩ a tx
    refine ⟨a', effects, _, hsend, ⟨_, hrespond⟩, (unchanged_of_failed hid hsend).mpr ?_⟩
    intro x hx
    obtain ⟨hkey, hreach⟩ := mem_keys_of_reached hid hsend hx
    exact hrecorded x ((hkeys order hperm x).mp hkey) hreach

end Failed

/-- The same two members, iterated in the other order. -/
def carolAndBob : ReliableSenderMap Unit := bobAndCarol.insert "b" ()

/-- A broadcast to two members, of which only one can be reached, to an actor that knows neither. -/
theorem unchanged_iff_onlyBobReached :
    (∃ x ∈ bobAndCarol.keys, decide (x = "b") = false) ∧
      ((∀ order : ReliableSenderMap Unit, order.entries.Perm bobAndCarol.entries →
        ∃ a' effects text,
          EchoBroadcastActor.start.sendMessage (fun x => decide (x = "b"))
              (Message.package "a" "hello" 1) order 0 = some (a', effects, .error text) ∧
            (∃ text', Effect.respond 0 (.error text') ∈ effects) ∧
            Unchanged EchoBroadcastActor.start a') ↔
        ∀ x ∈ bobAndCarol.keys, decide (x = "b") = true →
          (EchoBroadcastActor.start : EchoBroadcastActor Unit).echo ⟨1⟩ x ≠ none) := by
  have hfail : ∃ x ∈ bobAndCarol.keys, decide (x = "b") = false := by decide
  exact ⟨hfail, unchanged_iff EchoBroadcastActor.start bobAndCarol 0 rfl hfail⟩

/-- **A Send that fails leaves the members before the failing one behind.**  Only one of two members
can be reached: it keeps an awaited echo if it is iterated first, and none if it is not. -/
theorem leftover_carolAndBob :
    carolAndBob.entries.Perm bobAndCarol.entries ∧
      ∃ a₁ effects₁ a₂ effects₂ text,
        EchoBroadcastActor.start.sendMessage (fun x => decide (x = "b"))
            (Message.package "a" "hello" 1) carolAndBob 0 = some (a₁, effects₁, .error text) ∧
          EchoBroadcastActor.start.sendMessage (fun x => decide (x = "b"))
            (Message.package "a" "hello" 1) bobAndCarol 0 = some (a₂, effects₂, .error text) ∧
          a₁.echo ⟨1⟩ "b" = some false ∧ a₂.echo ⟨1⟩ "b" = none ∧
          ¬ Unchanged EchoBroadcastActor.start a₁ := by
  refine ⟨HashMap.insert_perm_of_lookup (by decide), _, _, _, _, _, rfl, rfl, rfl, rfl, ?_⟩
  intro hsame
  cases hsame.echos ⟨1⟩ "b"

end EchoTask

end FrostFederation.EchoBroadcast
