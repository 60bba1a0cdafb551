/-
# FrostFederation.EchoBroadcast.Loop — the task of the echo broadcast actor, await by await.

`EchoBroadcastHandle::start` spawns a task that takes one command after the other from a bounded
channel.  A Send is not handled in one go: `send_message` awaits the reliable send to each member
before it turns to the next one, and while it waits the task handles nothing else.  Here a step is a
piece of the task between two awaits, or a client that puts a command into the channel.

`EchoTask` handles a command in one step, with the answers of all its reliable sends given beforehand.
This module proves that nothing is lost by that: the task IMPLEMENTS `EchoTask`, with the commands in
the order in which they were posted.  While a Send is suspended, `EchoTask` is still before it; the
echos that the loop has begun to await are seen by nobody, since only the suspended call has the actor.
-/
import FrostFederation.EchoBroadcast.Actor

namespace FrostFederation.EchoBroadcast

open FrostFederation.Lib
open FrostFederation.Protocol

variable {H : Type}

/-! ## The task -/

/-- A call of `send_message` that awaits the reliable send to `member`; `rest` is what the iterator
over `members` has left. -/
structure Sending (H : Type) where
  data : Message
  messageId : MessageId
  members : ReliableSenderMap H
  respondTo : Oneshot
  member : String
  handle : H
  rest : List ((_ : String) × H)

/-- Where the task stands: at its channel, in a reliable send, or unwound by a panic. -/
inductive LoopPhase (H : Type) where
  | receiving (actor : EchoBroadcastActor H)
  | sending (actor : EchoBroadcastActor H) (call : Sending H)
  | ended

structure Loop (H : Type) where
  phase : LoopPhase H
  queue : List (EchoBroadcastMessage H)
  opened : Nat

inductive LoopInput (H : Type) where
  /-- `EchoBroadcastHandle::send` and `EchoBroadcastHandle::receive` put their command into the
  channel. -/
  | send (data : Message) (members : ReliableSenderMap H)
  | receive (data : Message)
  /-- The task takes the next command. -/
  | take
  /-- The reliable send that is awaited returns. -/
  | answer (ok : Bool)

/-- What a step shows: the command a client posts, the reliable send that the task goes into, and what
happens to the world outside. -/
structure LoopEvent (H : Type) where
  input : LoopInput H
  posted : Option (EchoBroadcastMessage H)
  asked : Option (H × Message)
  effects : List (Effect H)

/-- The capacity of the command channel. -/
def commandCapacity : Nat := 512

namespace Loop

def start : Loop H := ⟨.receiving .start, [], 0⟩

/-- A command goes into the channel if there is room; a channel whose receiver is gone refuses it. -/
def post (l : Loop H) (input : LoopInput H) (command : EchoBroadcastMessage H) :
    Option (Loop H × LoopEvent H) :=
  match l.phase with
  | .ended => some (l, ⟨input, some command, none, (EchoTask.respondTo command).map .drop⟩)
  | _ =>
      if l.queue.length < commandCapacity then
        some ({ l with queue := l.queue ++ [command] }, ⟨input, some command, none, []⟩)
      else none

/-- The oneshot senders that a panic drops: that of the command, those of the actor, and those of the
commands in the channel. -/
def unwound (actor : EchoBroadcastActor H) (current : List Oneshot)
    (queue : List (EchoBroadcastMessage H)) : List (Effect H) :=
  (current ++ actor.messageClientTxs.entries.map Sigma.snd ++ queue.flatMap EchoTask.respondTo).map .drop

/-- The task turns to the members that are left: it goes into the next reliable send, or it completes
the call. -/
def goOn (l : Loop H) (input : LoopInput H) (queue : List (EchoBroadcastMessage H))
    (actor : EchoBroadcastActor H) (effects : List (Effect H)) (data : Message) (messageId : MessageId)
    (members : ReliableSenderMap H) (respondTo : Oneshot) :
    List ((_ : String) × H) → Loop H × LoopEvent H
  | ⟨member, handle⟩ :: rest =>
      (⟨.sending actor ⟨data, messageId, members, respondTo, member, handle, rest⟩, queue, l.opened⟩,
        ⟨input, none, some (handle, data), effects⟩)
  | [] =>
      match actor.completeSend data messageId members respondTo with
      | some (actor', dropped) =>
          (⟨.receiving actor', queue, l.opened⟩, ⟨input, none, none, effects ++ dropped⟩)
      | none =>
          (⟨.ended, [], l.opened⟩, ⟨input, none, none, effects ++ unwound actor [respondTo] queue⟩)

/-- `handle_message`, up to the first await. -/
def begin (l : Loop H) (actor : EchoBroadcastActor H) (queue : List (EchoBroadcastMessage H)) :
    EchoBroadcastMessage H → Loop H × LoopEvent H
  | .send data members respondTo =>
      match data.getMessageId with
      | some messageId =>
          l.goOn .take queue actor [] data messageId members respondTo members.entries
      | none => (⟨.ended, [], l.opened⟩, ⟨.take, none, none, unwound actor [respondTo] queue⟩)
  | .echo data =>
      match actor.handleReceivedEcho data with
      | some (actor', effects) => (⟨.receiving actor', queue, l.opened⟩, ⟨.take, none, none, effects⟩)
      | none => (⟨.ended, [], l.opened⟩, ⟨.take, none, none, unwound actor [] queue⟩)

/-- The reliable send to the member has returned. -/
def answered (l : Loop H) (actor : EchoBroadcastActor H) (call : Sending H) (ok : Bool) :
    Loop H × LoopEvent H :=
  let sent := .reliableSend call.member call.handle call.data ok
  if ok then
    let actor := { actor with
      messageEchos := EchoBroadcastActor.expectEcho actor.messageEchos call.messageId call.member }
    l.goOn (.answer ok) l.queue actor [sent] call.data call.messageId call.members call.respondTo call.rest
  else
    (⟨.receiving actor, l.queue, l.opened⟩,
      ⟨.answer ok, none, none,
        [sent, .respond call.respondTo (.error "Error sending using reliable sender")]⟩)

def step (l : Loop H) : LoopInput H → Option (Loop H × LoopEvent H)
  | .send data members =>
      { l with opened := l.opened + 1 }.post (.send data members) (.send data members l.opened)
  | .receive data => l.post (.receive data) (.echo data)
  | .take =>
      match l.phase, l.queue with
      | .receiving actor, command :: rest => some (l.begin actor rest command)
      | _, _ => none
  | .answer ok =>
      match l.phase with
      | .sending actor call => some (l.answered actor call ok)
      | _ => none

def machine (H : Type) : Machine (Loop H) (LoopInput H) (LoopEvent H) := ⟨step⟩

/-! ## Histories -/

/-- The commands that clients have posted, in order. -/
def posted (tr : List (LoopEvent H)) : List (EchoBroadcastMessage H) := tr.filterMap LoopEvent.posted

/-- Everything the task has done to the world outside, in order. -/
def effects (tr : List (LoopEvent H)) : List (Effect H) := tr.flatMap LoopEvent.effects

/-- The commands that have not been handled: the one that is suspended, and those in the channel. -/
def unfinished (l : Loop H) : List (EchoBroadcastMessage H) :=
  match l.phase with
  | .sending _ call => .send call.data call.members call.respondTo :: l.queue
  | _ => l.queue

/-! ## The channel and the phases -/

section Step

variable {l l' : Loop H} {e : LoopEvent H} {actor : EchoBroadcastActor H} {call : Sending H}

theorem goOn_queue_le (input : LoopInput H) (queue : List (EchoBroadcastMessage H))
    (actor : EchoBroadcastActor H) (effects : List (Effect H)) (data : Message) (messageId : MessageId)
    (members : ReliableSenderMap H) (respondTo : Oneshot) (rest : List ((_ : String) × H)) :
    (l.goOn input queue actor effects data messageId members respondTo rest).1.queue.length ≤
      queue.length := by
  cases rest with
  | cons entry rest => exact Nat.le_refl _
  | nil =>
      unfold goOn
      cases actor.completeSend data messageId members respondTo with
      | some result => exact Nat.le_refl _
      | none => exact Nat.zero_le _

theorem begin_queue_le (actor : EchoBroadcastActor H) (queue : List (EchoBroadcastMessage H))
    (command : EchoBroadcastMessage H) : (l.begin actor queue command).1.queue.length ≤ queue.length := by
  cases command with
  | send data members respondTo =>
      cases hid : data.getMessageId with
      | some messageId =>
          simp only [begin, hid]
          exact goOn_queue_le _ _ _ _ _ _ _ _ _
      | none => simp [begin, hid]
  | echo data => cases hecho : actor.handleReceivedEcho data <;> simp [begin, hecho]

/-- The command channel stays within its bounds. -/
theorem bounded_of_step {i : LoopInput H} (hs : l.step i = some (l', e))
    (hbounded : l.queue.length ≤ commandCapacity) : l'.queue.length ≤ commandCapacity := by
  have hpost : ∀ {opened input command}, { l with opened := opened }.post input command = some (l', e) →
      l'.queue.length ≤ commandCapacity := by
    intro opened input command h
    unfold post at h
    split at h
    · cases h
      exact hbounded
    · split at h
      · next hroom =>
          cases h
          show (l.queue ++ [command]).length ≤ commandCapacity
          rw [List.length_append]
          exact hroom
      · cases h
  cases i with
  | send data members => exact hpost hs
  | receive data => exact hpost hs
  | take =>
      simp only [step] at hs
      split at hs
      · next hqueue =>
          obtain ⟨rfl, -⟩ := Prod.ext_iff.mp (Option.some.inj hs)
          rw [hqueue, List.length_cons] at hbounded
          exact Nat.le_trans (begin_queue_le _ _ _) (by omega)
      · cases hs
  | answer ok =>
      simp only [step] at hs
      split at hs
      · obtain ⟨rfl, -⟩ := Prod.ext_iff.mp (Option.some.inj hs)
        cases ok with
        | true => exact Nat.le_trans (goOn_queue_le _ _ _ _ _ _ _ _ _) hbounded
        | false => exact hbounded
      · cases hs

/-- While the task is in a Send, only clients do something, and they only post. -/
theorem posted_of_sending {i : LoopInput H} (hphase : l.phase = .sending actor call)
    (hi : ∀ ok, i ≠ .answer ok) (hs : l.step i = some (l', e)) :
    l'.phase = .sending actor call ∧ e.effects = [] ∧ e.asked = none ∧ e.input ≠ .take ∧
      l'.queue.length = l.queue.length + e.posted.toList.length := by
  have hpost : ∀ {opened input command}, input ≠ .take →
      { l with opened := opened }.post input command = some (l', e) →
      l'.phase = .sending actor call ∧ e.effects = [] ∧ e.asked = none ∧ e.input ≠ .take ∧
        l'.queue.length = l.queue.length + e.posted.toList.length := by
    intro opened input command hinput h
    simp only [post, hphase] at h
    split at h
    · cases h
      exact ⟨rfl, rfl, rfl, hinput, by simp⟩
    · cases h
  cases i with
  | send data members => exact hpost (by simp) hs
  | receive data => exact hpost (by simp) hs
  | take => simp [step, hphase] at hs
  | answer ok => exact absurd rfl (hi ok)

/-- The task turns from one member to the next. -/
theorem next_of_answer {member : String} {handle : H} {rest : List ((_ : String) × H)}
    (hphase : l.phase = .sending actor call) (hrest : call.rest = ⟨member, handle⟩ :: rest)
    (hs : l.step (.answer true) = some (l', e)) :
    ∃ actor', l'.phase = .sending actor' { call with member := member, handle := handle, rest := rest } ∧
      e.effects = [.reliableSend call.member call.handle call.data true] ∧
      e.asked = some (handle, call.data) ∧ e.input = .answer true ∧ e.posted = none ∧
      l'.queue = l.queue := by
  simp only [step, hphase, answered, if_true, hrest, goOn] at hs
  cases hs
  exact ⟨_, rfl, rfl, rfl, rfl, rfl, rfl⟩

end Step

/-! ## The loop over the members -/

/-- The echos of these members are awaited. -/
def awaiting (messageId : MessageId) (done : List ((_ : String) × H)) (echos : EchosMap) : EchosMap :=
  done.foldl (fun echos entry => EchoBroadcastActor.expectEcho echos messageId entry.1) echos

/-- The reliable sends to these members have succeeded. -/
def reached (data : Message) (done : List ((_ : String) × H)) : List (Effect H) :=
  done.map fun entry => .reliableSend entry.1 entry.2 data true

/-- The loop passes the members it reaches. -/
theorem sendToMembers_append {reach : String → Bool} {data : Message} {messageId : MessageId}
    {done : List ((_ : String) × H)} (hdone : ∀ entry ∈ done, reach entry.1 = true)
    (rest : List ((_ : String) × H)) (echos : EchosMap) :
    EchoBroadcastActor.sendToMembers reach data messageId (done ++ rest) echos =
      let r := EchoBroadcastActor.sendToMembers reach data messageId rest (awaiting messageId done echos)
      (r.1, reached data done ++ r.2.1, r.2.2) := by
  induction done generalizing echos with
  | nil => rfl
  | cons entry done ih =>
      have hfirst : reach entry.1 = true := hdone entry List.mem_cons_self
      have hlater := ih (fun e he => hdone e (List.mem_cons_of_mem _ he))
      simp [EchoBroadcastActor.sendToMembers, hfirst, hlater, awaiting, reached]

/-- Members have different names. -/
theorem notMem_done {members : ReliableSenderMap H} {done rest : List ((_ : String) × H)}
    {member : String} {handle : H} (hmembers : members.entries = done ++ ⟨member, handle⟩ :: rest) :
    member ∉ done.map Sigma.fst := by
  have hnodup : (members.entries.map Sigma.fst).Nodup := members.nodupKeys
  rw [hmembers, List.map_append, List.map_cons] at hnodup
  intro hmem
  exact List.disjoint_of_nodup_append hnodup hmem List.mem_cons_self

/-! ## Handling a command in one step -/

/-- The senders inside the commands are numbered from `n` on, up to `m`. -/
def Numbered : Nat → List (EchoBroadcastMessage H) → Nat → Prop
  | n, [], m => n = m
  | n, .send _ _ tx :: rest, m => tx = n ∧ Numbered (n + 1) rest m
  | n, .echo _ :: rest, m => Numbered n rest m

theorem numbered_send {n m : Nat} {commands : List (EchoBroadcastMessage H)}
    (h : Numbered n commands m) (data : Message) (members : ReliableSenderMap H) :
    Numbered n (commands ++ [.send data members m]) (m + 1) := by
  induction commands generalizing n with
  | nil =>
      obtain rfl : n = m := h
      exact ⟨rfl, rfl⟩
  | cons command commands ih =>
      cases command with
      | send _ _ tx => exact ⟨h.1, ih h.2⟩
      | echo _ => exact ih (n := n) h

theorem numbered_echo {n m : Nat} {commands : List (EchoBroadcastMessage H)}
    (h : Numbered n commands m) (data : Message) : Numbered n (commands ++ [.echo data]) m := by
  induction commands generalizing n with
  | nil => exact h
  | cons command commands ih =>
      cases command with
      | send _ _ tx => exact ⟨h.1, ih h.2⟩
      | echo _ => exact ih (n := n) h

theorem process_command (actor : Option (EchoBroadcastActor H)) (reach : String → Bool)
    (command : EchoBroadcastMessage H) : (EchoTask.process actor reach command).2.command = command := by
  unfold EchoTask.process
  split
  · rfl
  · split <;> rfl

/-- The next command is a call that `EchoTask` can process, whatever its reliable sends answer. -/
theorem exists_call {t : EchoTask H} {command : EchoBroadcastMessage H}
    {queue : List (EchoBroadcastMessage H)} {m : Nat} (h : Numbered t.opened (command :: queue) m)
    (reach : String → Bool) (hreach : ∀ data, command = .echo data → reach = fun _ => true) :
    ∃ t' e, (EchoTask.machine H).Run t [e] t' ∧ e.command = command ∧
      t'.actor = (EchoTask.process t.actor reach command).1 ∧
      e.effects = (EchoTask.process t.actor reach command).2.effects ∧ Numbered t'.opened queue m := by
  cases command with
  | send data members tx =>
      obtain ⟨rfl, hrest⟩ := h
      have hs : (EchoTask.machine H).step t (.send data members reach) = some (t.step _) := rfl
      exact ⟨_, _, Machine.RunWith.single hs trivial, process_command _ _ _, rfl, rfl, hrest⟩
  | echo data =>
      obtain rfl := hreach data rfl
      have hs : (EchoTask.machine H).step t (.echo data) = some (t.step _) := rfl
      exact ⟨_, _, Machine.RunWith.single hs trivial, process_command _ _ _, rfl, rfl, h⟩

/-- What finds no task is refused. -/
theorem run_refused {t : EchoTask H} {queue : List (EchoBroadcastMessage H)} {m : Nat}
    (h : Numbered t.opened queue m) (hactor : t.actor = none) :
    ∃ t' tr, (EchoTask.machine H).Run t tr t' ∧ tr.map Event.command = queue ∧ t'.actor = none ∧
      tr.flatMap Event.effects = (queue.flatMap EchoTask.respondTo).map .drop ∧ t'.opened = m := by
  induction queue generalizing t with
  | nil => exact ⟨t, [], .nil, rfl, hactor, rfl, h⟩
  | cons command queue ih =>
      obtain ⟨t₁, e, hfirst, hcommand, hactor₁, heffects, hrest⟩ :=
        exists_call h (fun _ => true) fun _ _ => rfl
      rw [hactor] at hactor₁ heffects
      obtain ⟨t', tr, hrun, hcommands, hactor', heffects', hopened⟩ := ih hrest hactor₁
      refine ⟨t', e :: tr, hfirst.append hrun, by simp [hcommand, hcommands], hactor', ?_, hopened⟩
      simp [heffects, heffects', EchoTask.process]

/-! ## What the task does with a command -/

/-- Where `EchoTask` is when the task is in this phase, and the reliable sends that it has yet to show.
While a Send is suspended it is the actor from before the Send. -/
def Lags (before : Option (EchoBroadcastActor H)) (sent : List (Effect H)) : LoopPhase H → Prop
  | .receiving actor => before = some actor ∧ sent = []
  | .sending actor call => ∃ first done, before = some first ∧
      actor = { first with messageEchos := awaiting call.messageId done first.messageEchos } ∧
      call.data.getMessageId = some call.messageId ∧
      call.members.entries = done ++ ⟨call.member, call.handle⟩ :: call.rest ∧
      sent = reached call.data done
  | .ended => before = none ∧ sent = []

/-- The answers of the reliable sends that a command was handled with.  Unless one of them has just
failed, all have succeeded. -/
def Answers (reach : String → Bool) (input : LoopInput H) (command : EchoBroadcastMessage H) : Prop :=
  reach = (fun _ => true) ∨ (input = .answer false ∧ ∃ data members tx, command = .send data members tx)

/-- How many reliable sends the task has yet to go into for the command that it is at. -/
def remaining : LoopPhase H → EchoBroadcastMessage H → Nat
  | .sending _ call, _ => call.rest.length
  | _, .send _ members _ => members.entries.length
  | _, .echo _ => 0

/-- What a step of the task does with the command it is at.  `first` is the actor from before the
command, `sent` is what the command has done so far, `left` is how many reliable sends it has yet to go
into, and `queue` are the commands behind it. -/
inductive Progress (input : LoopInput H) (opened : Nat) (first : EchoBroadcastActor H)
    (sent : List (Effect H)) (left : Nat) (command : EchoBroadcastMessage H)
    (queue : List (EchoBroadcastMessage H)) : Loop H → LoopEvent H → Prop
  /-- The command goes into a reliable send, and is suspended there. -/
  | asks {actor : EchoBroadcastActor H} {call : Sending H} {more : List (Effect H)}
      (hcommand : command = .send call.data call.members call.respondTo)
      (hleft : call.rest.length < left)
      (hlags : Lags (some first) (sent ++ more) (.sending actor call)) :
      Progress input opened first sent left command queue ⟨.sending actor call, queue, opened⟩
        ⟨input, none, some (call.handle, call.data), more⟩
  | returns {reach : String → Bool} {actor' : EchoBroadcastActor H} {ev : Event H}
      {more : List (Effect H)} (hreach : Answers reach input command)
      (hprocess : EchoTask.process (some first) reach command = (some actor', ev))
      (heffects : sent ++ more = ev.effects) :
      Progress input opened first sent left command queue ⟨.receiving actor', queue, opened⟩
        ⟨input, none, none, more⟩
  | panics {reach : String → Bool} {ev : Event H} {more : List (Effect H)}
      (hreach : Answers reach input command)
      (hprocess : EchoTask.process (some first) reach command = (none, ev))
      (heffects : sent ++ more = ev.effects ++ (queue.flatMap EchoTask.respondTo).map .drop) :
      Progress input opened first sent left command queue ⟨.ended, [], opened⟩ ⟨input, none, none, more⟩

section Progress

variable {l l' : Loop H} {e : LoopEvent H} {first : EchoBroadcastActor H} {sent : List (Effect H)}
  {queue : List (EchoBroadcastMessage H)}

/-- The entry of the id is there once the echo of a member is awaited. -/
theorem lookup_awaiting (messageId : MessageId) {done : List ((_ : String) × H)} (hdone : done ≠ [])
    (echos : EchosMap) : (awaiting messageId done echos).lookup messageId ≠ none := by
  obtain ⟨before, last, rfl⟩ := (List.eq_nil_or_concat done).resolve_left hdone
  simp [awaiting, EchoBroadcastActor.expectEcho, HashMap.upsert]

/-- The task turns to the members that are left. -/
theorem progress_goOn {data : Message} {messageId : MessageId} {members : ReliableSenderMap H}
    {respondTo : Oneshot} {done rest : List ((_ : String) × H)} {input : LoopInput H}
    {more : List (Effect H)} (hid : data.getMessageId = some messageId)
    (hmembers : members.entries = done ++ rest) (hsent : sent ++ more = reached data done) :
    let r := l.goOn input queue { first with messageEchos := awaiting messageId done first.messageEchos }
      more data messageId members respondTo rest
    Progress input l.opened first sent rest.length (.send data members respondTo) queue r.1 r.2 := by
  cases rest with
  | cons entry rest => exact .asks rfl (Nat.lt_succ_self _) ⟨first, done, rfl, rfl, hid, hmembers, hsent⟩
  | nil =>
      have hloop : EchoBroadcastActor.sendToMembers (fun _ => true) data messageId (done ++ [])
          first.messageEchos = (awaiting messageId done first.messageEchos, reached data done ++ [], true) :=
        sendToMembers_append (fun _ _ => rfl) [] first.messageEchos
      rw [← hmembers] at hloop
      cases hcomplete : EchoBroadcastActor.completeSend
          { first with messageEchos := awaiting messageId done first.messageEchos } data messageId members
          respondTo with
      | some result =>
          obtain ⟨actor', dropped⟩ := result
          have hprocess : EchoTask.process (some first) (fun _ => true) (.send data members respondTo) =
              (some actor', ⟨.send data members respondTo, fun _ => true, .returned (.ok ()),
                reached data done ++ dropped⟩) := by
            simp [EchoTask.process, EchoBroadcastActor.handleMessage,
              EchoBroadcastActor.sendMessage, hid, hloop, hcomplete]
          simp only [goOn, hcomplete]
          exact .returns (Or.inl rfl) hprocess (by simp only [← List.append_assoc, hsent])
      | none =>
          -- only a Send to nobody finds no entry, and it has reached nobody
          have hnobody : done = [] := by
            by_contra hdone
            have hentry := lookup_awaiting messageId hdone first.messageEchos
            simp only [EchoBroadcastActor.completeSend] at hcomplete
            split at hcomplete
            · next hnone => exact hentry hnone
            · cases hcomplete
          subst hnobody
          have hprocess : EchoTask.process (some first) (fun _ => true) (.send data members respondTo) =
              (none, ⟨.send data members respondTo, fun _ => true, .panicked,
                (respondTo :: first.messageClientTxs.entries.map Sigma.snd).map .drop⟩) := by
            simp [EchoTask.process, EchoBroadcastActor.handleMessage,
              EchoBroadcastActor.sendMessage, hid, hloop, hcomplete, EchoTask.respondTo]
          simp only [goOn, hcomplete]
          refine .panics (Or.inl rfl) hprocess ?_
          simp only [← List.append_assoc, hsent]
          simp [reached, unwound]

/-- The task takes a command. -/
theorem progress_begin (command : EchoBroadcastMessage H) :
    Progress .take l.opened first [] (remaining (.receiving first) command) command queue
      (l.begin first queue command).1 (l.begin first queue command).2 := by
  cases command with
  | send data members respondTo =>
      cases hid : data.getMessageId with
      | some messageId =>
          simp only [begin, hid]
          exact progress_goOn hid (List.nil_append _).symm rfl
      | none =>
          have hprocess : EchoTask.process (some first) (fun _ => true) (.send data members respondTo) =
              (none, ⟨.send data members respondTo, fun _ => true, .panicked,
                (respondTo :: first.messageClientTxs.entries.map Sigma.snd).map .drop⟩) := by
            simp [EchoTask.process, EchoBroadcastActor.handleMessage,
              EchoBroadcastActor.sendMessage, hid, EchoTask.respondTo]
          simp only [begin, hid]
          exact .panics (Or.inl rfl) hprocess (by simp [unwound])
  | echo data =>
      cases hecho : first.handleReceivedEcho data with
      | some result =>
          obtain ⟨actor', effects'⟩ := result
          have hprocess : EchoTask.process (some first) (fun _ => true) (.echo data) =
              (some actor', ⟨.echo data, fun _ => true, .returned (.ok ()), effects'⟩) := by
            simp [EchoTask.process, EchoBroadcastActor.handleMessage, hecho]
          simp only [begin, hecho]
          exact .returns (Or.inl rfl) hprocess rfl
      | none =>
          have hprocess : EchoTask.process (some first) (fun _ => true) (.echo data) =
              (none, ⟨.echo data, fun _ => true, .panicked,
                (first.messageClientTxs.entries.map Sigma.snd).map .drop⟩) := by
            simp [EchoTask.process, EchoBroadcastActor.handleMessage, hecho, EchoTask.respondTo]
          simp only [begin, hecho]
          exact .panics (Or.inl rfl) hprocess (by simp [unwound])

/-- The reliable send that is awaited returns. -/
theorem progress_answered {actor : EchoBroadcastActor H} {call : Sending H} {ok : Bool}
    (hlags : Lags (some first) sent (.sending actor call)) :
    Progress (.answer ok) l.opened first sent call.rest.length
      (.send call.data call.members call.respondTo) l.queue (l.answered actor call ok).1
      (l.answered actor call ok).2 := by
  obtain ⟨first', done, heq, rfl, hid, hmembers, rfl⟩ := hlags
  obtain rfl : first = first' := Option.some.inj heq
  cases ok with
  | true =>
      have hdone : call.members.entries = (done ++ [⟨call.member, call.handle⟩]) ++ call.rest := by
        simpa using hmembers
      have hawaiting : EchoBroadcastActor.expectEcho (awaiting call.messageId done first.messageEchos)
          call.messageId call.member =
          awaiting call.messageId (done ++ [⟨call.member, call.handle⟩]) first.messageEchos := by
        simp [awaiting]
      simp only [answered, if_true, hawaiting]
      exact progress_goOn hid hdone (by simp [reached])
  | false =>
      -- whoever is in front of the member has been reached, and the member has not
      let reach : String → Bool := fun name => decide (name ∈ done.map Sigma.fst)
      have hreach : ∀ entry ∈ done, reach entry.1 = true := fun entry hentry =>
        decide_eq_true (List.mem_map_of_mem hentry)
      have hmember : reach call.member = false := decide_eq_false (notMem_done hmembers)
      have hloop : EchoBroadcastActor.sendToMembers reach call.data call.messageId call.members.entries
          first.messageEchos = (awaiting call.messageId done first.messageEchos,
            reached call.data done ++ [.reliableSend call.member call.handle call.data false], false) := by
        rw [hmembers, sendToMembers_append hreach]
        simp [EchoBroadcastActor.sendToMembers, hmember]
      have hprocess : EchoTask.process (some first) reach (.send call.data call.members call.respondTo) =
          (some { first with messageEchos := awaiting call.messageId done first.messageEchos },
            ⟨.send call.data call.members call.respondTo, reach,
              .returned (.error "Error sending message using reliable sender"),
              reached call.data done ++ [.reliableSend call.member call.handle call.data false] ++
                [.respond call.respondTo (.error "Error sending using reliable sender")]⟩) := by
        simp [EchoTask.process, EchoBroadcastActor.handleMessage,
          EchoBroadcastActor.sendMessage, hid, hloop]
      exact .returns (Or.inr ⟨rfl, _, _, _, rfl⟩) hprocess (by simp)

/-- **What a step of the task itself can be**: it works on the first of its unfinished commands. -/
theorem progress_of_step {i : LoopInput H} {before : Option (EchoBroadcastActor H)}
    (hs : l.step i = some (l', e)) (hi : i = .take ∨ ∃ ok, i = .answer ok)
    (hlags : Lags before sent l.phase) :
    ∃ first command queue, before = some first ∧ l.unfinished = command :: queue ∧
      Progress i l.opened first sent (remaining l.phase command) command queue l' e := by
  rcases hi with rfl | ⟨ok, rfl⟩
  · simp only [step] at hs
    split at hs
    · next actor command queue hphase hqueue =>
        obtain ⟨rfl, rfl⟩ := Prod.ext_iff.mp (Option.some.inj hs)
        rw [hphase] at hlags
        obtain ⟨rfl, rfl⟩ := hlags
        refine ⟨actor, command, queue, rfl, by simp [unfinished, hphase, hqueue], ?_⟩
        rw [hphase]
        exact progress_begin _
    · cases hs
  · simp only [step] at hs
    split at hs
    · next actor call hphase =>
        obtain ⟨rfl, rfl⟩ := Prod.ext_iff.mp (Option.some.inj hs)
        rw [hphase] at hlags
        have hbefore := hlags
        obtain ⟨first, -, rfl, -⟩ := hlags
        refine ⟨first, .send call.data call.members call.respondTo, l.queue, rfl,
          by simp [unfinished, hphase], ?_⟩
        rw [hphase]
        exact progress_answered hbefore
    · cases hs

end Progress

/-! ## The task implements `EchoTask` -/

/-- **The task and `EchoTask` side by side**: the commands are handled in the order in which they were
posted, each of them once, and with the same effects in the same order. -/
structure Linearized (tr : List (LoopEvent H)) (l : Loop H) (tr' : List (Event H)) (t : EchoTask H) :
    Prop where
  inOrder : posted tr = tr'.map Event.command ++ l.unfinished
  lags : ∃ sent, Lags t.actor sent l.phase ∧ effects tr = tr'.flatMap Event.effects ++ sent
  numbered : Numbered t.opened l.unfinished l.opened
  closed : l.phase = .ended → l.queue = []

variable {tr : List (LoopEvent H)} {l l' : Loop H} {tr' : List (Event H)} {t : EchoTask H}

/-- The task works on a command. -/
theorem linearized_progress {first : EchoBroadcastActor H} {sent : List (Effect H)} {left : Nat}
    {command : EchoBroadcastMessage H} {queue : List (EchoBroadcastMessage H)} {input : LoopInput H}
    {e : LoopEvent H} (hlin : Linearized tr l tr' t) (hactor : t.actor = some first)
    (hsent : effects tr = tr'.flatMap Event.effects ++ sent)
    (hunfinished : l.unfinished = command :: queue)
    (hprogress : Progress input l.opened first sent left command queue l' e) :
    ∃ more t', (EchoTask.machine H).Run t more t' ∧ Linearized (tr ++ [e]) l' (tr' ++ more) t' := by
  have horder := hlin.inOrder
  have hnumbered := hlin.numbered
  rw [hunfinished] at horder hnumbered
  have hecho : ∀ {reach : String → Bool}, Answers reach input command →
      ∀ data, command = .echo data → reach = fun _ => true := by
    rintro reach (hall | ⟨-, data', members, tx, hsend⟩) data hdata
    · exact hall
    · cases hsend.symm.trans hdata
  cases hprogress with
  | @asks actor call more hcommand _ hlags =>
      subst hcommand
      refine ⟨[], t, .nil, ?_, ⟨sent ++ more, ?_, ?_⟩, hnumbered, by simp⟩
      · simpa [posted, unfinished] using horder
      · rw [hactor]
        exact hlags
      · have hall : effects tr ++ more = tr'.flatMap Event.effects ++ (sent ++ more) := by
          rw [hsent, List.append_assoc]
        simpa [effects] using hall
  | @returns reach actor' ev more hreach hprocess heffects =>
      obtain ⟨t', ev', hrun, hcommand, hactor', heffects', hrest⟩ :=
        exists_call hnumbered reach (hecho hreach)
      rw [hactor, hprocess] at hactor' heffects'
      refine ⟨[ev'], t', hrun, ?_, ⟨[], ⟨hactor', rfl⟩, ?_⟩, hrest, by simp⟩
      · simpa [posted, hcommand, unfinished] using horder
      · have hall : effects tr ++ more = tr'.flatMap Event.effects ++ ev.effects := by
          rw [hsent, List.append_assoc, heffects]
        simpa [effects, heffects'] using hall
  | @panics reach ev more hreach hprocess heffects =>
      -- the command and everything behind it is dropped
      obtain ⟨t₁, ev', hrun, hcommand, hactor', heffects', hrest⟩ :=
        exists_call hnumbered reach (hecho hreach)
      rw [hactor, hprocess] at hactor' heffects'
      obtain ⟨t', refused, hrefused, hcommands, hgone, hdropped, hopened⟩ := run_refused hrest hactor'
      refine ⟨ev' :: refused, t', hrun.append hrefused, ?_, ⟨[], ⟨hgone, rfl⟩, ?_⟩, hopened,
        fun _ => rfl⟩
      · simpa [posted, hcommand, hcommands, unfinished] using horder
      · have hall : effects tr ++ more = tr'.flatMap Event.effects ++
            (ev.effects ++ (queue.flatMap EchoTask.respondTo).map .drop) := by
          rw [hsent, List.append_assoc, heffects]
        simpa [effects, heffects', hdropped] using hall

/-- A client posts a command. -/
theorem linearized_post {command : EchoBroadcastMessage H} {opened : Nat} {input : LoopInput H}
    {e : LoopEvent H} (hlin : Linearized tr l tr' t)
    (hnumbered : Numbered t.opened (l.unfinished ++ [command]) opened)
    (hs : { l with opened := opened }.post input command = some (l', e)) :
    ∃ more t', (EchoTask.machine H).Run t more t' ∧ Linearized (tr ++ [e]) l' (tr' ++ more) t' := by
  obtain ⟨sent, hlags, hsent⟩ := hlin.lags
  have horder := hlin.inOrder
  unfold post at hs
  split at hs
  · next hended =>
      -- the task is gone, and `EchoTask` refuses the command
      cases hs
      have hphase : l.phase = .ended := hended
      have hunfinished : l.unfinished = [] := by simp [unfinished, hphase, hlin.closed hphase]
      rw [hphase] at hlags
      obtain ⟨hactor, rfl⟩ := hlags
      rw [hunfinished] at hnumbered horder
      obtain ⟨t', refused, hrun, hcommands, hactor', hdropped, hopened⟩ := run_refused hnumbered hactor
      refine ⟨refused, t', hrun, ?_, ⟨[], ?_, ?_⟩, ?_, fun _ => hlin.closed hphase⟩
      · simpa [posted, hcommands, unfinished, hphase, hlin.closed hphase] using horder
      · rw [hphase]
        exact ⟨hactor', rfl⟩
      · simpa [effects, hdropped] using hsent
      · simpa [unfinished, hphase, hlin.closed hphase, Numbered] using hopened
  · next halive =>
      split at hs
      · cases hs
        have hunfinished : ∀ m, unfinished ⟨l.phase, l.queue ++ [command], m⟩ = l.unfinished ++ [command] := by
          intro m
          unfold unfinished
          cases l.phase <;> rfl
        refine ⟨[], t, .nil, ?_, ⟨sent, hlags, by simpa [effects] using hsent⟩, ?_, fun hended => ?_⟩
        · rw [hunfinished]
          simp only [posted] at horder
          simp [posted, horder]
        · rw [hunfinished]
          exact hnumbered
        · exact absurd hended halive
      · cases hs

/-- One step of the task is none, one or many steps of `EchoTask`. -/
theorem linearized_step {i : LoopInput H} {e : LoopEvent H} (hlin : Linearized tr l tr' t)
    (hs : (machine H).step l i = some (l', e)) :
    ∃ more t', (EchoTask.machine H).Run t more t' ∧ Linearized (tr ++ [e]) l' (tr' ++ more) t' := by
  have hturn : (i = .take ∨ ∃ ok, i = .answer ok) →
      ∃ more t', (EchoTask.machine H).Run t more t' ∧ Linearized (tr ++ [e]) l' (tr' ++ more) t' := by
    intro hi
    obtain ⟨sent, hlags, hsent⟩ := hlin.lags
    obtain ⟨first, command, queue, hactor, hunfinished, hprogress⟩ := progress_of_step hs hi hlags
    exact linearized_progress hlin hactor hsent hunfinished hprogress
  cases i with
  | send data members => exact linearized_post hlin (numbered_send hlin.numbered data members) hs
  | receive data => exact linearized_post hlin (numbered_echo hlin.numbered data) hs
  | take => exact hturn (Or.inl rfl)
  | answer ok => exact hturn (Or.inr ⟨ok, rfl⟩)

/-- **The task implements `EchoTask`**: every run of it, with its bounded channel and its awaits, is a
run of the atomic task on the same commands in the order in which they were posted, with the same
effects; what a suspended Send has already sent is still to be shown. -/
theorem linearized_of_run (hrun : (machine H).Run start tr l) :
    ∃ tr' t, (EchoTask.machine H).Run .start tr' t ∧ Linearized tr l tr' t := by
  refine hrun.simulate ⟨rfl, ⟨[], ⟨rfl, rfl⟩, rfl⟩, rfl, fun _ => rfl⟩ ?_
  intro tr l i l' e tr' t _ hlin hs _
  exact linearized_step hlin hs

def twoMembers : ReliableSenderMap Unit := ((∅ : ReliableSenderMap Unit).insert "b" ()).insert "c" ()

/-- The echo of the first member comes while the reliable send to the second one is awaited. -/
def earlyEcho : List (LoopInput Unit) :=
  [.send (Message.package "localhost" "round one package" 1) twoMembers, .take, .answer true,
    .receive (Message.package "c" "round one package" 1), .answer true,
    .receive (Message.package "b" "round one package" 1), .take, .take]

theorem linearized_of_run_earlyEcho :
    ∃ tr l, (machine Unit).exec start earlyEcho = some (l, tr) ∧
      Effect.respond 0 (.ok ()) ∈ effects tr ∧
      ∃ tr' t, (EchoTask.machine Unit).Run .start tr' t ∧ Linearized tr l tr' t := by
  have hexec : (machine Unit).exec start earlyEcho = some (_, _) := rfl
  exact ⟨_, _, hexec, by decide, linearized_of_run (Machine.run_of_exec hexec)⟩

end Loop

end FrostFederation.EchoBroadcast
