/-
# FrostFederation.Node.Dispatch — the echo broadcast actor over the connections it sends on.

The task of the echo broadcast actor (`EchoBroadcast.Loop`) and the two tasks of every connection whose
reliable sender it may have a handle of (`Connection.Stack`).  The reliable send that the task awaits is
a call of `ReliableSenderHandle::send`: it puts a request into the channel of the connection, and then
waits for its oneshot, which is answered when the acknowledgement of the peer has come.

Neither of the two waits has a timeout.  A connection is SILENT if it can bring no acknowledgement any
more: its actor has ended and what it had passed on is used up, or its two tasks wait for each other.
One such member holds the task up for ever: the Send that has it among its members is never finished,
no later command is taken, nobody is answered, and the command channel fills.
-/
import FrostFederation.Connection.Side
import FrostFederation.EchoBroadcast.Loop

namespace FrostFederation.Node

open FrostFederation.Lib
open FrostFederation.Lib.Serde (Format)
open FrostFederation.Protocol (Message)
open FrostFederation.EchoBroadcast
  (ReliableSenderMap EchoBroadcastActor EchoBroadcastMessage Loop LoopInput LoopEvent Sending commandCapacity)
open FrostFederation.Connection (NoiseIo NoiseHandler Snow Stack StackInput StackEvent bareValues noSecret)

variable {C N B : Type}

/-! ## The task and the connections -/

/-- Where the call of `ReliableSenderHandle::send` stands that the task is in. -/
inductive Await (C : Type) where
  | nothing
  /-- There is no room yet in the request channel. -/
  | posting (c : C) (message : Message)
  | waiting (c : C) (tx : Oneshot) (answered : Bool)

/-- The answers of a connection reach whoever waits for them. -/
def Await.hear [DecidableEq C] (c : C) (effects : List ReliableSender.Effect) : Await C → Await C
  | .waiting c' tx answered =>
      .waiting c' tx (answered || (decide (c' = c) && effects.contains (.respond tx (.ok ()))))
  | await => await

structure Dispatch (C N : Type) where
  loop : Loop C
  stack : C → Stack N
  await : Await C

namespace Dispatch

inductive Input (C B : Type) where
  /-- Clients of the echo broadcast. -/
  | send (data : Message) (members : ReliableSenderMap C)
  | receive (data : Message)
  | take
  /-- The reliable send that is awaited: its request gets into the channel, or finds it closed, and its
  oneshot is answered. -/
  | request
  | refused
  | wake
  | stack (c : C) (i : StackInput B)

structure Event (C B : Type) where
  loop : Option (LoopEvent C)
  stack : Option (C × StackEvent B)

def start (noise : C → N) : Dispatch C N := ⟨.start, fun c => .start (noise c), .nothing⟩

/-- A step of the task.  `await` is what it awaits unless it goes into another reliable send. -/
def inLoop (d : Dispatch C N) (i : LoopInput C) (await : Await C) : Option (Dispatch C N × Event C B) :=
  (d.loop.step i).map fun r =>
    ({ d with
      loop := r.1
      await := match r.2.asked with
        | some (c, message) => .posting c message
        | none => await }, ⟨some r.2, none⟩)

variable [DecidableEq C] [NoiseIo N B] (flexbuffers : Format B)

/-- A step of a connection. -/
def inStack (d : Dispatch C N) (c : C) (i : StackInput B) (await : StackEvent B → Await C) :
    Option (Dispatch C N × Event C B) :=
  ((Stack.machine flexbuffers).step (d.stack c) i).map fun r =>
    ({ d with stack := Function.update d.stack c r.1, await := await r.2 }, ⟨none, some (c, r.2)⟩)

def step (d : Dispatch C N) : Input C B → Option (Dispatch C N × Event C B)
  | .send data members => d.inLoop (.send data members) d.await
  | .receive data => d.inLoop (.receive data) d.await
  | .take => d.inLoop .take d.await
  | .request =>
      match d.await with
      | .posting c message =>
          d.inStack flexbuffers c (.request message) fun _ => .waiting c (d.stack c).requested false
      | _ => none
  | .refused =>
      match d.await with
      | .posting c _ => if (d.stack c).senderEnded then d.inLoop (.answer false) .nothing else none
      | _ => none
  | .wake =>
      match d.await with
      | .waiting _ _ true => d.inLoop (.answer true) .nothing
      | _ => none
  | .stack c i => d.inStack flexbuffers c i fun e => d.await.hear c e.effects

def machine : Machine (Dispatch C N) (Input C B) (Event C B) := ⟨step flexbuffers⟩

/-! ## What one step can do -/

/-- Why the task takes a step: a client or its channel, or the return of the reliable send. -/
inductive Cause (d : Dispatch C N) : LoopInput C → Await C → Prop
  | own {i : LoopInput C} (hi : ∀ ok, i ≠ .answer ok) : Cause d i d.await
  | refused {c : C} {message : Message} (hawait : d.await = .posting c message)
      (hended : (d.stack c).senderEnded = true) : Cause d (.answer false) .nothing
  | woken {c : C} {tx : Oneshot} (hawait : d.await = .waiting c tx true) : Cause d (.answer true) .nothing

/-- What a step of a connection does to the reliable send. -/
inductive Heard (d : Dispatch C N) (c : C) (e : StackEvent B) : Await C → Prop
  | heard : Heard d c e (d.await.hear c e.effects)
  | requested {message : Message} {tx : Oneshot} (hawait : d.await = .posting c message) :
      Heard d c e (.waiting c tx false)

variable {flexbuffers} {d d' : Dispatch C N} {e : Event C B}

/-- **Every step is one of the task, or one of a connection.** -/
theorem step_cases {i : Input C B} (hs : (machine flexbuffers).step d i = some (d', e)) :
    (∃ i' l' le await, Cause d i' await ∧ d.loop.step i' = some (l', le) ∧ e = ⟨some le, none⟩ ∧
      d' = ⟨l', d.stack, match le.asked with
        | some (c, message) => .posting c message
        | none => await⟩) ∨
    ∃ c i' s' se await, Heard d c se await ∧
      (Stack.machine flexbuffers).step (d.stack c) i' = some (s', se) ∧ e = ⟨none, some (c, se)⟩ ∧
      d' = ⟨d.loop, Function.update d.stack c s', await⟩ := by
  have hloop : ∀ {i' await}, Cause d i' await → d.inLoop i' await = some (d', e) →
      ∃ i' l' le await, Cause d i' await ∧ d.loop.step i' = some (l', le) ∧ e = ⟨some le, none⟩ ∧
        d' = ⟨l', d.stack, match le.asked with
          | some (c, message) => .posting c message
          | none => await⟩ := by
    intro i' await hcause h
    obtain ⟨⟨l', le⟩, hstep, heq⟩ := Option.map_eq_some_iff.mp h
    cases heq
    exact ⟨i', l', le, await, hcause, hstep, rfl, rfl⟩
  have hstack : ∀ {c i' await}, (∀ se, Heard d c se (await se)) →
      d.inStack flexbuffers c i' await = some (d', e) → ∃ c i' s' se await, Heard d c se await ∧
        (Stack.machine flexbuffers).step (d.stack c) i' = some (s', se) ∧ e = ⟨none, some (c, se)⟩ ∧
        d' = ⟨d.loop, Function.update d.stack c s', await⟩ := by
    intro c i' await hheard h
    obtain ⟨⟨s', se⟩, hstep, heq⟩ := Option.map_eq_some_iff.mp h
    cases heq
    exact ⟨c, i', s', se, await se, hheard se, hstep, rfl, rfl⟩
  cases i with
  | send data members => exact Or.inl (hloop (.own (by simp)) hs)
  | receive data => exact Or.inl (hloop (.own (by simp)) hs)
  | take => exact Or.inl (hloop (.own (by simp)) hs)
  | request =>
      simp only [machine, step] at hs
      split at hs
      · next hawait => exact Or.inr (hstack (fun _ => .requested hawait) hs)
      · cases hs
  | refused =>
      simp only [machine, step] at hs
      split at hs
      · next hawait =>
          split at hs
          · next hended => exact Or.inl (hloop (.refused hawait hended) hs)
          · cases hs
      · cases hs
  | wake =>
      simp only [machine, step] at hs
      split at hs
      · next hawait => exact Or.inl (hloop (.woken hawait) hs)
      · cases hs
  | stack c i => exact Or.inr (hstack (fun _ => .heard) hs)

/-! ## Silent connections -/

/-- A connection that can bring no acknowledgement any more. -/
def Silent (s : Stack N) : Prop :=
  s.senderEnded = false ∧ (¬s.conn.phase.Live ∧ s.subscriber = [] ∨ s.Stuck)

section Silent

variable {s s' : Stack N} {i : StackInput B} {se : StackEvent B}

omit [DecidableEq C]

theorem passed_of_step (hs : (Stack.machine flexbuffers).step s i = some (s', se)) :
    Stack.Passed flexbuffers s ⟨se, s.passage i⟩ s' := by
  have hstep : Stack.step flexbuffers s i = some (s', se) := hs
  apply Stack.passed_of_step (i := i)
  simp [Stack.traced, hstep]

/-- The reliable sender answers a client only when it takes in what the connection has passed on. -/
theorem takes_of_respond {tx : Oneshot} (hs : (Stack.machine flexbuffers).step s i = some (s', se))
    (hrespond : .respond tx (.ok ()) ∈ se.effects) : s.phase = .selecting ∧ s.subscriber ≠ [] := by
  have hpassed := passed_of_step hs
  generalize he : (⟨se, s.passage i⟩ : Connection.SideEvent B) = e at hpassed
  have heffects : .respond tx (.ok ()) ∈ e.effects := by rwa [← he]
  cases hpassed with
  | tookAck hphase hsubscriber => exact ⟨hphase, by simp [hsubscriber]⟩
  | _ => simp at heffects

/-- What an ended connection passed on before does not grow. -/
theorem drained_step (hs : (Stack.machine flexbuffers).step s i = some (s', se))
    (hdead : ¬s.conn.phase.Live) (hdrained : s.subscriber = []) :
    ¬s'.conn.phase.Live ∧ s'.subscriber = [] := by
  have hpassed := passed_of_step hs
  generalize (⟨se, s.passage i⟩ : Connection.SideEvent B) = e at hpassed
  cases hpassed with
  | command _ hst => exact absurd (Stack.live_of_stepped hst) hdead
  | item hst => exact absurd (Stack.live_of_stepped hst) hdead
  | forwarded hphase => simp [hphase] at hdead
  | unsubscribed hphase => simp [hphase] at hdead
  | tookData _ hsubscriber | tookAck _ hsubscriber | tookStray _ hsubscriber =>
      simp [hsubscriber] at hdrained
  | queued _ hlive => exact absurd hlive hdead
  | _ => exact ⟨hdead, hdrained⟩

/-- **Silence is for ever.** -/
theorem silent_step (hs : (Stack.machine flexbuffers).step s i = some (s', se)) (h : Silent s) :
    Silent s' ∧ ∀ tx, .respond tx (.ok ()) ∉ se.effects := by
  obtain ⟨hsender, hwhy⟩ := h
  have hstepped := (Stack.stepped_of_step hs).1
  refine ⟨⟨Stack.senderEnded_of_stepped hstepped hsender, ?_⟩, fun tx hrespond => ?_⟩
  · rcases hwhy with ⟨hdead, hdrained⟩ | hstuck
    · exact Or.inl (drained_step hs hdead hdrained)
    · exact Or.inr (Stack.stuck_of_stepped hstepped hstuck)
  · obtain ⟨hselecting, hsome⟩ := takes_of_respond hs hrespond
    rcases hwhy with ⟨-, hdrained⟩ | ⟨-, hsuspended⟩
    · exact hsome hdrained
    · simp [Stack.suspended, hselecting] at hsuspended

end Silent

/-! ## The task held up -/

/-- Nobody is answered: a client of the echo broadcast has neither a result nor a closed channel. -/
def answers : EchoBroadcast.Effect C → Bool
  | .reliableSend _ _ _ _ => false
  | .respond _ _ => true
  | .drop _ => true

/-- The reliable send to the member that the task is at. -/
def Awaits (d : Dispatch C N) (call : Sending C) (c : C) : Prop :=
  (∃ message, d.await = .posting call.handle message) ∨
    ∃ tx answered, d.await = .waiting call.handle tx answered ∧ (call.handle = c → answered = false)

/-- The task is in a Send, and the silent connection `c` is still in front of it. -/
structure HeldUp (d : Dispatch C N) (c : C) : Prop where
  sending : ∃ actor call, d.loop.phase = .sending actor call ∧
    c ∈ call.handle :: call.rest.map Sigma.snd ∧ Awaits d call c
  silent : Silent (d.stack c)

/-- What holds in every run: no reliable sender has ended, and the channel is within its bounds. -/
structure Sane (d : Dispatch C N) : Prop where
  attached : ∀ c, (d.stack c).senderEnded = false
  bounded : d.loop.queue.length ≤ commandCapacity

/-- What a step shows of the commands that clients post. -/
def Event.posted (e : Event C B) : Option (EchoBroadcastMessage C) := e.loop.bind LoopEvent.posted

/-- A step that takes no command from the channel. -/
def Untaken (e : Event C B) : Prop := ∀ le, e.loop = some le → le.input ≠ .take

/-- A step that answers nobody. -/
def Unanswered (e : Event C B) : Prop :=
  ∀ le, e.loop = some le → ∀ effect ∈ le.effects, answers effect = false

theorem sane_step {i : Input C B} (h : Sane d) (hs : (machine flexbuffers).step d i = some (d', e)) :
    Sane d' := by
  rcases step_cases hs with ⟨i', l', le, await, -, hstep, rfl, rfl⟩ |
    ⟨c, i', s', se, await, -, hstep, rfl, rfl⟩
  · exact ⟨h.attached, Loop.bounded_of_step hstep h.bounded⟩
  · refine ⟨fun c' => ?_, h.bounded⟩
    by_cases hc : c' = c
    · subst hc
      simpa using Stack.senderEnded_of_stepped (Stack.stepped_of_step hstep).1 (h.attached c')
    · simpa [hc] using h.attached c'

/-- **No step gets the task past a silent member.** -/
theorem heldUp_step {c : C} {i : Input C B} (hsane : Sane d) (h : HeldUp d c)
    (hs : (machine flexbuffers).step d i = some (d', e)) :
    HeldUp d' c ∧ (Untaken e ∧ Unanswered e) ∧
      d'.loop.queue.length = d.loop.queue.length + e.posted.toList.length := by
  obtain ⟨⟨actor, call, hphase, hmem, hawaits⟩, hsilent⟩ := h
  rcases step_cases hs with ⟨i', l', le, await, hcause, hstep, rfl, rfl⟩ |
    ⟨c', i', s', se, await, hheard, hstep, rfl, rfl⟩
  · cases hcause with
    | own hi =>
        obtain ⟨hphase', heffects, hasked, hinput, hlength⟩ := Loop.posted_of_sending hphase hi hstep
        refine ⟨⟨⟨actor, call, hphase', hmem, ?_⟩, hsilent⟩, ?_, hlength⟩
        · simpa [Awaits, hasked] using hawaits
        · constructor <;> rintro le' ⟨⟩
          · exact hinput
          · simp [heffects]
    | @refused c' message hawait hended =>
        rw [hsane.attached c'] at hended
        cases hended
    | @woken c' tx hawait =>
        -- the connection that has answered is not the silent one, which is further behind
        have hpast : call.handle ≠ c := by
          intro hc
          rcases hawaits with ⟨message, hposting⟩ | ⟨tx', answered, hwaiting, hunanswered⟩
          · simp [hposting] at hawait
          · rw [hunanswered hc, hawait] at hwaiting
            simp at hwaiting
        have hbehind : c ∈ call.rest.map Sigma.snd := by
          rcases List.mem_cons.mp hmem with hc | hrest
          · exact absurd hc.symm hpast
          · exact hrest
        obtain ⟨⟨member, handle⟩, rest, hrest⟩ : ∃ entry rest, call.rest = entry :: rest := by
          cases hr : call.rest with
          | nil => simp [hr] at hbehind
          | cons entry rest => exact ⟨entry, rest, rfl⟩
        obtain ⟨actor', hphase', heffects, hasked, hinput, hposted, hqueue⟩ :=
          Loop.next_of_answer hphase hrest hstep
        refine ⟨⟨⟨actor', _, hphase', ?_, ?_⟩, hsilent⟩, ?_, ?_⟩
        · simpa [hrest] using hbehind
        · exact Or.inl ⟨call.data, by simp [hasked]⟩
        · constructor <;> rintro le' ⟨⟩
          · simp [hinput]
          · simp [heffects, answers]
        · simp [hqueue, Event.posted, hposted]
  · refine ⟨⟨⟨actor, call, hphase, hmem, ?_⟩, ?_⟩, ⟨by simp [Untaken], by simp [Unanswered]⟩,
      by simp [Event.posted]⟩
    · cases hheard with
      | heard =>
          rcases hawaits with ⟨message, hposting⟩ | ⟨tx, answered, hwaiting, hunanswered⟩
          · exact Or.inl ⟨message, by simp [hposting, Await.hear]⟩
          · have hhear : d.await.hear c' se.effects = .waiting call.handle tx (answered ||
                (decide (call.handle = c') && se.effects.contains (.respond tx (.ok ())))) := by
              rw [hwaiting]
              rfl
            refine Or.inr ⟨tx, _, hhear, fun hc => ?_⟩
            rw [hunanswered hc, Bool.false_or]
            by_cases hcc : c' = c
            · subst hcc
              have hnone := (silent_step hstep hsilent).2 tx
              simp [hnone]
            · simp [hc, Ne.symm hcc]
      | @requested message tx hawait =>
          rcases hawaits with ⟨message', hposting⟩ | ⟨tx', answered, hwaiting, -⟩
          · obtain ⟨rfl, -⟩ : c' = call.handle ∧ message = message' := by simpa [hawait] using hposting
            exact Or.inr ⟨tx, false, rfl, fun _ => rfl⟩
          · simp [hawait] at hwaiting
    · by_cases hcc : c = c'
      · subst hcc
        simpa using (silent_step hstep hsilent).1
      · simpa [hcc] using hsilent

/-- A Send to a silent member begins. -/
theorem heldUp_of_take {c : C} {data : Message} {members : ReliableSenderMap C} {tx : Oneshot}
    {rest : List (EchoBroadcastMessage C)} (hqueue : d.loop.queue = .send data members tx :: rest)
    (hid : data.getMessageId.isSome = true) (hmember : c ∈ members.entries.map Sigma.snd)
    (hsilent : Silent (d.stack c)) (hs : (machine flexbuffers).step d .take = some (d', e)) :
    HeldUp d' c ∧ Unanswered e ∧ d'.loop.queue = rest := by
  obtain ⟨messageId, hmessageId⟩ := Option.isSome_iff_exists.mp hid
  obtain ⟨⟨member, handle⟩, later, hentries⟩ : ∃ entry later, members.entries = entry :: later := by
    cases hm : members.entries with
    | nil => simp [hm] at hmember
    | cons entry later => exact ⟨entry, later, rfl⟩
  obtain ⟨⟨l', le⟩, hstep, heq⟩ := Option.map_eq_some_iff.mp hs
  cases heq
  simp only [Loop.step, hqueue] at hstep
  split at hstep
  · next actor command rest' _ hcommand =>
      cases hcommand
      simp only [Loop.begin, hmessageId, hentries, Loop.goOn] at hstep
      cases hstep
      refine ⟨⟨⟨_, _, rfl, ?_, Or.inl ⟨data, rfl⟩⟩, hsilent⟩, ?_, rfl⟩
      · simpa [hentries] using hmember
      · rintro le ⟨⟩
        simp
  · cases hstep

/-- **One silent member stops the echo broadcast of a node for good.**  Once the task has taken a Send
to it, no later command is taken and nobody is answered, neither the client of that Send nor any other
one; and no more commands are accepted than the channel holds. -/
theorem heldUp_of_run {noise : C → N} {pre post : List (Event C B)} {d₁ : Dispatch C N} {c : C}
    {data : Message} {members : ReliableSenderMap C} {tx : Oneshot}
    {rest : List (EchoBroadcastMessage C)} (hrun : (machine flexbuffers).Run (start noise) pre d)
    (hqueue : d.loop.queue = .send data members tx :: rest) (hid : data.getMessageId.isSome = true)
    (hmember : c ∈ members.entries.map Sigma.snd) (hsilent : Silent (d.stack c))
    (htake : (machine flexbuffers).step d .take = some (d₁, e))
    (hpost : (machine flexbuffers).Run d₁ post d') :
    (∀ e' ∈ post, Untaken e') ∧ (∀ e' ∈ e :: post, Unanswered e') ∧
      (post.filterMap Event.posted).length + rest.length ≤ commandCapacity := by
  have hsane : Sane d := by
    refine hrun.invariant (I := fun _ d => Sane d) ⟨fun _ => rfl, Nat.zero_le _⟩ ?_
    intro tr d i d' e _ hsane hs _
    exact sane_step hsane hs
  obtain ⟨hheld, hfirst, hrest⟩ := heldUp_of_take hqueue hid hmember hsilent htake
  have hinv : Sane d' ∧ HeldUp d' c ∧ (∀ e' ∈ post, Untaken e' ∧ Unanswered e') ∧
      d'.loop.queue.length = (post.filterMap Event.posted).length + rest.length := by
    refine hpost.invariant (I := fun post d' => Sane d' ∧ HeldUp d' c ∧
      (∀ e' ∈ post, Untaken e' ∧ Unanswered e') ∧
      d'.loop.queue.length = (post.filterMap Event.posted).length + rest.length) ?_ ?_
    · exact ⟨sane_step hsane htake, hheld, by simp, by simp [hrest]⟩
    · rintro tr d i d' e' _ ⟨hsane, hheld, hidle, hlength⟩ hs -
      obtain ⟨hheld', hidle', hlength'⟩ := heldUp_step hsane hheld hs
      refine ⟨sane_step hsane hs, hheld', ?_, ?_⟩
      · intro e'' he''
        rcases List.mem_append.mp he'' with hold | hlast
        · exact hidle e'' hold
        · rw [List.mem_singleton.mp hlast]
          exact hidle'
      · have hlast : ([e'].filterMap Event.posted).length = e'.posted.toList.length := by
          cases hposted : e'.posted <;> simp [hposted]
        rw [hlength', hlength, List.filterMap_append, List.length_append, hlast]
        omega
  obtain ⟨hsane', -, hidle, hlength⟩ := hinv
  refine ⟨fun e' he' => (hidle e' he').1, ?_, hlength ▸ hsane'.bounded⟩
  intro e' he'
  rcases List.mem_cons.mp he' with rfl | hlater
  · exact hfirst
  · exact (hidle e' hlater).2

def onlyMember : ReliableSenderMap Unit := (∅ : ReliableSenderMap Unit).insert "b" ()

/-- The peer of the only member closes its connection, and then a package is broadcast. -/
def closedMember : List (Input Unit (Serde.Value × List (Bool × Nat))) :=
  [.stack () (.takeItem none), .send (Message.package "localhost" "round one package" 1) onlyMember]

/-- The request gets into the channel of the connection and the reliable sender takes it; an echo is
posted behind it. -/
def unacknowledged : List (Input Unit (Serde.Value × List (Bool × Nat))) :=
  [.request, .stack () .takeRequest, .stack () .post, .stack () .resume,
    .receive (Message.package "b" "round one package" 1)]

def transporting (_ : Unit) : NoiseHandler Snow.transparent := .transporting true noSecret 0 0

theorem heldUp_of_run_closedMember :
    ∃ pre d e d₁ post d',
      (machine bareValues).exec (start transporting) closedMember = some (d, pre) ∧
      (machine bareValues).step d .take = some (d₁, e) ∧
      (machine bareValues).exec d₁ unacknowledged = some (d', post) ∧
      (∀ e' ∈ e :: post, Unanswered e') := by
  obtain ⟨d, pre, hpre, hqueue, hsilent, d₁, e, htake, d', post, hpost⟩ : ∃ d pre,
      (machine bareValues).exec (start transporting) closedMember = some (d, pre) ∧
      d.loop.queue = [.send (Message.package "localhost" "round one package" 1) onlyMember 0] ∧
      Silent (d.stack ()) ∧ ∃ d₁ e, (machine bareValues).step d .take = some (d₁, e) ∧
      ∃ d' post, (machine bareValues).exec d₁ unacknowledged = some (d', post) :=
    ⟨_, _, rfl, rfl, ⟨rfl, Or.inl ⟨id, rfl⟩⟩, _, _, rfl, _, _, rfl⟩
  have hheld := heldUp_of_run (Machine.run_of_exec hpre) hqueue rfl (c := ()) (by decide) hsilent htake
    (Machine.run_of_exec hpost)
  exact ⟨pre, d, e, d₁, post, d', hpre, htake, hpost, hheld.2.1⟩

end Dispatch

end FrostFederation.Node
