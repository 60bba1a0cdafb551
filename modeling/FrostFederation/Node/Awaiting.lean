/-
# FrostFederation.Node.Awaiting — a node whose actor awaits its reliable sends.

`Node.step` lets the echo broadcast actor handle a Send in one step, with the answers of all its
reliable sends.  In the code `send_message` awaits each of them, and while it does the event loops and
the main task go on: they receive, post commands, run into timeouts.  Here the tasks take the steps of
`Node`, and the actor those of `EchoBroadcast.Loop`, between two awaits.

Runs of this finer node ARE runs of `Node` (`refines_of_run`): a Send is handled there when its last
reliable send has returned.  Until then the coarser node still has the command at the head of its queue
and the actor from before it; nobody sees the difference, since only the suspended call has the actor
and only a call that is through answers oneshots.  What goes out is the same, sooner: a frame is
written when the actor goes into the reliable send.
-/
import FrostFederation.EchoBroadcast.Loop
import FrostFederation.Node.Flow

namespace FrostFederation.Node

open FrostFederation.Lib
open FrostFederation.Protocol
open FrostFederation.EchoBroadcast
  (EchoBroadcastActor EchoBroadcastMessage EchoTask Loop LoopPhase LoopInput LoopEvent Sending
    commandCapacity)

/-! ## Steps -/

/-- A node, and the call of `send_message` that its actor is suspended in.  `node.actor` is the actor as
that call has left it, and `node.queue` is what is in the channel. -/
structure Awaiting (E : Type) where
  node : Node E
  sending : Option (Sending E)

namespace Awaiting

variable {E : Type}

inductive Input (E : Type) where
  /-- A step of an event loop, of the main task or of the world around the node. -/
  | task (input : Node.Input E)
  /-- The actor takes the next command. -/
  | take
  /-- The reliable send that the actor awaits returns. -/
  | answer (ok : Bool)

/-- The step of its loop that the actor takes. -/
def Input.turn? : Input E → Option (LoopInput E)
  | .task _ => none
  | .take => some .take
  | .answer ok => some (.answer ok)

/-- What a step shows: the messages that go out, the command that is posted to the actor, what the actor
does, and the command it is through with: whether it has returned, or panicked. -/
structure Event (E : Type) where
  input : Input E
  frames : List (E × Message)
  handed : Option (EchoBroadcastMessage E)
  effects : List (EchoBroadcast.Effect E)
  finished : Option (EchoBroadcastMessage E × Bool)

/-- Where the task of the actor stands. -/
def phase (r : Awaiting E) : LoopPhase E :=
  match r.node.actor, r.sending with
  | none, _ => .ended
  | some actor, none => .receiving actor
  | some actor, some call => .sending actor call

/-- The task of the actor and its channel. -/
def loop (r : Awaiting E) : Loop E := ⟨r.phase, r.node.queue, r.node.opened⟩

/-- The task of the actor has gone on to `l`. -/
def resume (r : Awaiting E) (input : Input E) (l : Loop E) (e : LoopEvent E) : Awaiting E × Event E :=
  let node := { r.node with queue := l.queue, results := e.effects.foldl settle r.node.results }
  let command := r.loop.unfinished.head?
  match l.phase with
  | .receiving actor =>
      (⟨{ node with actor := some actor }, none⟩,
        ⟨input, e.asked.toList, none, e.effects, command.map (·, true)⟩)
  | .sending actor call =>
      (⟨{ node with actor := some actor }, some call⟩, ⟨input, e.asked.toList, none, e.effects, none⟩)
  | .ended =>
      (⟨{ node with actor := none }, none⟩,
        ⟨input, e.asked.toList, none, e.effects, command.map (·, false)⟩)

/-- The actor takes the steps of its own loop, and a command gets into its channel if there is room. -/
def admits (r : Awaiting E) : Node.Input E → Bool
  | .actor _ => false
  | .post _ _ => r.node.actor.isNone || r.node.queue.length < commandCapacity
  | _ => true

variable [DecidableEq E] (calculateHash : String → MessageId)

def step (r : Awaiting E) (input : Input E) : Option (Awaiting E × Event E) :=
  match input with
  | .task i =>
      if r.admits i then
        (r.node.step calculateHash i).map fun s =>
          (⟨s.1, r.sending⟩, ⟨input, s.2.frames, s.2.handed, [], none⟩)
      else none
  | .take => (r.loop.step .take).map fun s => r.resume input s.1 s.2
  | .answer ok => (r.loop.step (.answer ok)).map fun s => r.resume input s.1 s.2

def machine (E : Type) [DecidableEq E] : Machine (Awaiting E) (Input E) (Event E) :=
  ⟨step calculateHash⟩

/-- A new node. -/
def new (address : String) : Awaiting E := ⟨Node.new.withBindAddress address, none⟩

end Awaiting

/-! ## Steps of the tasks -/

section Tasks

variable {E : Type} [DecidableEq E] {calculateHash : String → MessageId}

/-- Only the actor itself, and a call that posts to it, look at the actor and its queue. -/
theorem step_withActor (node : Node E) (actor : Option (EchoBroadcastActor E))
    (queue : List (EchoBroadcastMessage E)) {input : Input E} (hactor : ∀ reach, input ≠ .actor reach)
    (hpost : ∀ j nanos, input ≠ .post j nanos) :
    step calculateHash { node with actor := actor, queue := queue } input =
      (step calculateHash node input).map fun s =>
        ({ s.1 with actor := actor, queue := queue }, s.2) := by
  cases input with
  | connect e address =>
      simp only [step]
      split <;> rfl
  | register e =>
      simp only [step]
      cases node.address e <;> rfl
  | arrive e message =>
      simp only [step]
      split <;> rfl
  | close e => rfl
  | receive e nanos =>
      simp only [step]
      split
      · next message rest _ _ => cases message <;> rfl
      · rfl
  | finish e =>
      simp only [step]
      split <;> rfl
  | request e message nanos => rfl
  | originate message nanos => rfl
  | post j nanos => exact absurd rfl (hpost j nanos)
  | wake j nanos =>
      simp only [step]
      split
      · next tx _ => cases node.results tx <;> rfl
      · rfl
  | timeout e =>
      simp only [step]
      split <;> rfl
  | actor reach => exact absurd rfl (hactor reach)

/-- The other tasks leave the actor and its queue alone, but for the command that is posted. -/
theorem actor_of_task {node node' : Node E} {input : Input E} {ev : Event E}
    (hs : (machine calculateHash E).step node input = some (node', ev))
    (hactor : ∀ reach, input ≠ .actor reach) :
    node'.actor = node.actor ∧ node'.queue = node.queue ++ ev.handed.toList ∧ ev.processed = none ∧
      ev.input = input := by
  cases stepped_of_step hs with
  | handled _ _ => exact absurd rfl (hactor _)
  | _ => simp [Event.quiet, startConnectionEventLoop, setJob, addMember, removeMember]

end Tasks

namespace Awaiting

variable {E : Type} {r r' : Awaiting E} {c : Node E} {sent : List (EchoBroadcast.Effect E)}

/-! ## What one step can do -/

theorem turn_cases {i : Input E} {li : LoopInput E} (h : i.turn? = some li) :
    (li = .take ∨ ∃ ok, li = .answer ok) ∧ (∀ input, i ≠ .task input) ∧
      (li = .answer false → i = .answer false) := by
  cases i with
  | task input => cases h
  | take =>
      obtain rfl := Option.some.inj h
      exact ⟨Or.inl rfl, by simp, by simp⟩
  | answer ok =>
      obtain rfl := Option.some.inj h
      refine ⟨Or.inr ⟨ok, rfl⟩, by simp, fun heq => ?_⟩
      cases heq
      rfl

/-- A step is that of another task, or one of the actor's own. -/
inductive Moved [DecidableEq E] (calculateHash : String → MessageId) (r : Awaiting E) :
    Input E → Awaiting E → Event E → Prop
  | task {input : Node.Input E} {node' : Node E} {ev : Node.Event E} (hadmits : r.admits input = true)
      (hreach : ∀ reach, input ≠ .actor reach)
      (hs : (Node.machine calculateHash E).step r.node input = some (node', ev)) :
      Moved calculateHash r (.task input) ⟨node', r.sending⟩
        ⟨.task input, ev.frames, ev.handed, [], none⟩
  | turn {i : Input E} {li : LoopInput E} {l' : Loop E} {le : LoopEvent E} (hturn : i.turn? = some li)
      (hs : r.loop.step li = some (l', le)) :
      Moved calculateHash r i (r.resume i l' le).1 (r.resume i l' le).2

/-- **Every step is one of these.** -/
theorem moved_of_step [DecidableEq E] {calculateHash : String → MessageId} {i : Input E} {e : Event E}
    (hs : (machine calculateHash E).step r i = some (r', e)) : Moved calculateHash r i r' e := by
  have hturn : ∀ {li}, i.turn? = some li →
      (r.loop.step li).map (fun s => r.resume i s.1 s.2) = some (r', e) → Moved calculateHash r i r' e := by
    intro li hi hmap
    obtain ⟨⟨l', le⟩, hloop, heq⟩ := Option.map_eq_some_iff.mp hmap
    obtain ⟨rfl, rfl⟩ := Prod.ext_iff.mp heq
    exact .turn hi hloop
  cases i with
  | task input =>
      simp only [machine, step] at hs
      split at hs
      · next hadmits =>
          obtain ⟨⟨node', ev⟩, hnode, heq⟩ := Option.map_eq_some_iff.mp hs
          obtain ⟨rfl, rfl⟩ := Prod.mk.inj heq
          refine .task hadmits ?_ hnode
          rintro reach rfl
          cases hadmits
      · cases hs
  | take => exact hturn rfl hs
  | answer ok => exact hturn rfl hs

theorem phase_resume (r : Awaiting E) (input : Input E) (l : Loop E) (e : LoopEvent E) :
    (r.resume input l e).1.phase = l.phase := by
  unfold resume
  split <;> next h => rw [h]; rfl

theorem frames_resume (r : Awaiting E) (input : Input E) (l : Loop E) (e : LoopEvent E) :
    (r.resume input l e).2.frames = e.asked.toList := by
  unfold resume
  split <;> rfl

theorem input_resume (r : Awaiting E) (input : Input E) (l : Loop E) (e : LoopEvent E) :
    (r.resume input l e).2.input = input := by
  unfold resume
  split <;> rfl

/-! ## Behind the finer node -/

/-- The coarser node `c` beside the finer node `r`.  While a Send is suspended, `c` has the command at the
head of its queue and the actor from before it; `sent` is what the Send has done so far. -/
structure Behind (r : Awaiting E) (sent : List (EchoBroadcast.Effect E)) (c : Node E) : Prop where
  lags : Loop.Lags c.actor sent r.phase
  node : c = { r.node with actor := c.actor, queue := r.loop.unfinished }

/-- A node whose actor is not suspended is beside itself. -/
theorem behind_idle (node : Node E) : Behind ⟨node, none⟩ [] node := by
  cases hactor : node.actor with
  | none =>
      have hphase : (⟨node, none⟩ : Awaiting E).phase = .ended := by simp only [phase, hactor]
      refine ⟨by rw [hphase]; exact ⟨hactor, rfl⟩, ?_⟩
      simp only [loop, Loop.unfinished, hphase]
  | some actor =>
      have hphase : (⟨node, none⟩ : Awaiting E).phase = .receiving actor := by simp only [phase, hactor]
      refine ⟨by rw [hphase]; exact ⟨hactor, rfl⟩, ?_⟩
      simp only [loop, Loop.unfinished, hphase]

/-- Both actors are there, or neither is. -/
theorem Behind.alive (h : Behind r sent c) : c.actor.isSome = r.node.actor.isSome := by
  have hlags := h.lags
  unfold phase at hlags
  split at hlags
  · next hactor => rw [hlags.1, hactor]
  · next actor hactor _ => rw [hlags.1, hactor]
  · next actor call hactor _ =>
      obtain ⟨first, -, hbefore, -⟩ := hlags
      rw [hbefore, hactor]
      rfl

/-- Reliable sends answer nobody. -/
theorem settle_of_lags {before : Option (EchoBroadcastActor E)} {phase : LoopPhase E}
    (h : Loop.Lags before sent phase) (results : Oneshot → Option ConnectionResult) :
    sent.foldl settle results = results := by
  cases phase with
  | receiving actor => rw [h.2, List.foldl_nil]
  | ended => rw [h.2, List.foldl_nil]
  | sending actor call =>
      obtain ⟨-, done, -, -, -, -, rfl⟩ := h
      induction done with
      | nil => rfl
      | cons entry done ih => exact ih

/-- A command is posted at the end of the unfinished ones. -/
theorem unfinished_post {node' : Node E} {commands : List (EchoBroadcastMessage E)}
    (hactor : node'.actor = r.node.actor) (hqueue : node'.queue = r.node.queue ++ commands) :
    (⟨node', r.sending⟩ : Awaiting E).phase = r.phase ∧
      (⟨node', r.sending⟩ : Awaiting E).loop.unfinished = r.loop.unfinished ++ commands := by
  have hphase : (⟨node', r.sending⟩ : Awaiting E).phase = r.phase := by simp only [phase, hactor]
  refine ⟨hphase, ?_⟩
  simp only [loop, Loop.unfinished, hphase, hqueue]
  cases r.phase <;> rfl

variable [DecidableEq E] {calculateHash : String → MessageId}

/-- A call posts its command to the coarser node as well, or finds the actor gone there too. -/
theorem behind_post {j : Job E} {nanos : Nat} {node' : Node E} {ev : Node.Event E} (h : Behind r sent c)
    (hadmits : r.admits (.post j nanos) = true)
    (hs : (Node.machine calculateHash E).step r.node (.post j nanos) = some (node', ev)) :
    ∃ c', (Node.machine calculateHash E).step c (.post j nanos) = some (c', ev) ∧
      Behind ⟨node', r.sending⟩ sent c' := by
  obtain ⟨hactor, hqueue, -, -⟩ := actor_of_task hs (by simp)
  obtain ⟨hphase, hunfinished⟩ := unfinished_post hactor hqueue
  have halive := h.alive
  obtain ⟨hlags, hnode⟩ := h
  generalize c.actor = before at hlags hnode halive
  subst hnode
  cases hsend : (r.node.jobs j).send? with
  | none => simp [Node.machine, Node.step, hsend] at hs
  | some send =>
      cases send with
      | waiting tx => simp [Node.machine, Node.step, hsend] at hs
      | posting data members =>
          cases hbefore : r.node.actor with
          | none =>
              obtain rfl : before = none := by simpa [hbefore] using halive
              simp only [Node.machine, Node.step, hsend, hbefore] at hs
              obtain ⟨rfl, rfl⟩ := Prod.mk.inj (Option.some.inj hs)
              refine ⟨_, by simp only [Node.machine, Node.step, hsend]; rfl, by rwa [hphase], ?_⟩
              rw [hunfinished, Event.quiet, Option.toList_none, List.append_nil]
              rfl
          | some actor =>
              have hfirst : before.isSome = true := by simpa [hbefore] using halive
              obtain ⟨first, rfl⟩ := Option.isSome_iff_exists.mp hfirst
              have hroom : r.loop.unfinished.length < queueCapacity := by
                have hchannel : r.node.queue.length < commandCapacity := by
                  simpa [admits, hbefore] using hadmits
                have hlength : r.loop.unfinished.length ≤ r.node.queue.length + 1 := by
                  simp only [loop, Loop.unfinished]
                  split <;> simp
                exact Nat.lt_of_le_of_lt hlength (Nat.succ_lt_succ hchannel)
              simp only [Node.machine, Node.step, hsend, hbefore] at hs
              split at hs
              · obtain ⟨rfl, rfl⟩ := Prod.mk.inj (Option.some.inj hs)
                refine ⟨_, by simp only [Node.machine, Node.step, hsend, hroom, if_true]; rfl,
                  by rwa [hphase], ?_⟩
                rw [hunfinished]
                rfl
              · cases hs

/-- A step of another task is the same step of the coarser node. -/
theorem behind_task {input : Node.Input E} {node' : Node E} {ev : Node.Event E} (h : Behind r sent c)
    (hadmits : r.admits input = true) (hreach : ∀ reach, input ≠ .actor reach)
    (hs : (Node.machine calculateHash E).step r.node input = some (node', ev)) :
    ∃ c', (Node.machine calculateHash E).step c input = some (c', ev) ∧
      Behind ⟨node', r.sending⟩ sent c' := by
  by_cases hpost : ∃ j nanos, input = .post j nanos
  · obtain ⟨j, nanos, rfl⟩ := hpost
    exact behind_post h hadmits hs
  · have hposts : ∀ j nanos, input ≠ .post j nanos := fun j nanos heq => hpost ⟨j, nanos, heq⟩
    have hquiet : ev.handed = none := by
      cases stepped_of_step hs with
      | posted _ => exact absurd rfl (hposts _ _)
      | handled _ _ => exact absurd rfl (hreach _)
      | _ => rfl
    obtain ⟨hactor, hqueue, -, -⟩ := actor_of_task hs hreach
    obtain ⟨hphase, hunfinished⟩ := unfinished_post hactor hqueue
    rw [hquiet, Option.toList_none, List.append_nil] at hunfinished
    have hsame : Node.step calculateHash r.node input = some (node', ev) := hs
    refine ⟨{ node' with actor := c.actor, queue := r.loop.unfinished }, ?_, by rw [hphase]; exact h.lags,
      by rw [hunfinished]⟩
    rw [h.node]
    show Node.step calculateHash { r.node with actor := c.actor, queue := r.loop.unfinished } input = _
    rw [step_withActor _ _ _ hreach hposts, hsame]
    rfl

/-! ## What the suspended Send has written -/

/-- The message of the reliable send that is awaited. -/
def asking : LoopPhase E → List (E × Message)
  | .sending _ call => [(call.handle, call.data)]
  | _ => []

omit [DecidableEq E] in
theorem frames_goOn {l l' : Loop E} {input : LoopInput E} {queue : List (EchoBroadcastMessage E)}
    {actor : EchoBroadcastActor E} {effects : List (EchoBroadcast.Effect E)} {data : Message}
    {messageId : MessageId} {members : EchoBroadcast.ReliableSenderMap E} {respondTo : Oneshot}
    {rest : List ((_ : String) × E)} {e : LoopEvent E}
    (h : l.goOn input queue actor effects data messageId members respondTo rest = (l', e)) :
    sentFrames e.effects = sentFrames effects ∧ e.asked.toList = asking l'.phase := by
  cases rest with
  | cons entry rest =>
      cases h
      exact ⟨rfl, rfl⟩
  | nil =>
      cases hcomplete : actor.completeSend data messageId members respondTo with
      | none =>
          simp only [Loop.goOn, hcomplete] at h
          cases h
          exact ⟨by rw [sentFrames_append, Loop.unwound, sentFrames_drop, List.append_nil], rfl⟩
      | some result =>
          simp only [Loop.goOn, hcomplete] at h
          cases h
          exact ⟨by rw [sentFrames_append, sentFrames_completeSend hcomplete, List.append_nil], rfl⟩

omit [DecidableEq E] in
/-- A step of the task shows the reliable send that it comes from, and writes the message of the one that
it goes into. -/
theorem frames_of_step {l l' : Loop E} {i : LoopInput E} {e : LoopEvent E} (hs : l.step i = some (l', e))
    (hi : i = .take ∨ ∃ ok, i = .answer ok) :
    sentFrames e.effects = asking l.phase ∧ e.asked.toList = asking l'.phase := by
  rcases hi with rfl | ⟨ok, rfl⟩
  · simp only [Loop.step] at hs
    split at hs
    · next actor command queue hphase _ =>
        rw [hphase]
        have hbegin := Option.some.inj hs
        cases command with
        | send data members respondTo =>
            cases hid : data.getMessageId with
            | some messageId =>
                simp only [Loop.begin, hid] at hbegin
                exact frames_goOn hbegin
            | none =>
                simp only [Loop.begin, hid] at hbegin
                cases hbegin
                exact ⟨sentFrames_drop _, rfl⟩
        | echo data =>
            cases hecho : actor.handleReceivedEcho data with
            | some result =>
                simp only [Loop.begin, hecho] at hbegin
                cases hbegin
                exact ⟨sentFrames_handleReceivedEcho hecho, rfl⟩
            | none =>
                simp only [Loop.begin, hecho] at hbegin
                cases hbegin
                exact ⟨sentFrames_drop _, rfl⟩
    · cases hs
  · simp only [Loop.step] at hs
    split at hs
    · next actor call hphase =>
        rw [hphase]
        have hanswered := Option.some.inj hs
        cases ok with
        | true =>
            simp only [Loop.answered, if_true] at hanswered
            exact frames_goOn hanswered
        | false =>
            cases hanswered
            exact ⟨rfl, rfl⟩
    · cases hs

/-! ## Every step is followed -/

/-- What a suspended Send has written so far. -/
def written (r : Awaiting E) (sent : List (EchoBroadcast.Effect E)) : List (E × Message) :=
  sentFrames sent ++ asking r.phase

/-- Whether a command has returned. -/
def returned (event : EchoBroadcast.Event E) : Bool :=
  match event.outcome with
  | .returned _ => true
  | _ => false

/-- How the coarser node follows a step of the finer one. -/
inductive Follows (calculateHash : String → MessageId) (c : Node E) (e : Event E) :
    List (Node.Event E) → Node E → Prop
  /-- The actor goes into a reliable send. -/
  | suspended (hinput : ∀ input, e.input ≠ .task input) (hhanded : e.handed = none)
      (hfinished : e.finished = none) : Follows calculateHash c e [] c
  | task {input : Node.Input E} {ev : Node.Event E} {c' : Node E}
      (hs : (Node.machine calculateHash E).step c input = some (c', ev))
      (hinput : ev.input = input) (hprocessed : ev.processed = none)
      (he : e = ⟨.task input, ev.frames, ev.handed, [], none⟩) : Follows calculateHash c e [ev] c'
  /-- The actor is through with a command. -/
  | handled {reach : String → Bool} {event : EchoBroadcast.Event E} {ev : Node.Event E} {c' : Node E}
      (hs : (Node.machine calculateHash E).step c (.actor reach) = some (c', ev))
      (hinput : ∀ input, e.input ≠ .task input) (hhanded : e.handed = none)
      (hreach : e.input ≠ .answer false → reach = fun _ => true)
      (hev : ev = ⟨.actor reach, sentFrames event.effects, none, some event⟩)
      (hfinished : e.finished = some (event.command, returned event)) : Follows calculateHash c e [ev] c'

/-- The coarser node handles the command that the actor is through with. -/
theorem step_handled {c : Node E} {first : EchoBroadcastActor E} {command : EchoBroadcastMessage E}
    {queue : List (EchoBroadcastMessage E)} {reach : String → Bool}
    {after : Option (EchoBroadcastActor E)} {event : EchoBroadcast.Event E} (hactor : c.actor = some first)
    (hqueue : c.queue = command :: queue)
    (hprocess : EchoTask.process (some first) reach command = (after, event)) :
    (Node.machine calculateHash E).step c (.actor reach) =
      some ((c.handleCommand reach command queue).1,
        ⟨.actor reach, sentFrames event.effects, none, some event⟩) := by
  have hevent := (handleCommand_cases c reach command queue).2.1
  rw [hactor, hprocess] at hevent
  simp only [Node.machine, Node.step, hactor, hqueue, hevent]

omit [DecidableEq E] in
theorem command_of_process {before after : Option (EchoBroadcastActor E)} {reach : String → Bool}
    {command : EchoBroadcastMessage E} {event : EchoBroadcast.Event E}
    (h : EchoTask.process before reach command = (after, event)) : event.command = command := by
  have hcommand := Loop.process_command before reach command
  rwa [h] at hcommand

omit [DecidableEq E] in
/-- A command has returned exactly if the actor has survived it. -/
theorem returned_of_process {first : EchoBroadcastActor E} {after : Option (EchoBroadcastActor E)}
    {reach : String → Bool} {command : EchoBroadcastMessage E} {event : EchoBroadcast.Event E}
    (h : EchoTask.process (some first) reach command = (after, event)) :
    returned event = after.isSome := by
  simp only [EchoTask.process] at h
  split at h <;> cases h <;> rfl

/-- A step of the actor is followed when it is through with a command. -/
theorem follows_turn {l' : Loop E} {i : Input E} {li : LoopInput E} {le : LoopEvent E}
    (h : Behind r sent c) (hturn : i.turn? = some li) (hs : r.loop.step li = some (l', le)) :
    ∃ tr' c' sent', Follows calculateHash c (r.resume i l' le).2 tr' c' ∧
      Behind (r.resume i l' le).1 sent' c' ∧
      written r sent ++ (r.resume i l' le).2.frames =
        tr'.flatMap Node.Event.frames ++ written (r.resume i l' le).1 sent' := by
  obtain ⟨hi, hinput, hfails⟩ := turn_cases hturn
  obtain ⟨hframes, hasked⟩ : sentFrames le.effects = asking r.phase ∧ le.asked.toList = asking l'.phase :=
    frames_of_step hs hi
  obtain ⟨first, command, queue, hactor, hunfinished, hprogress⟩ :=
    Loop.progress_of_step hs hi h.lags
  have hqueue : c.queue = command :: queue := by rw [h.node]; exact hunfinished
  have hsettled := settle_of_lags h.lags r.node.results
  have hnode := h.node
  have hsucceeds : ∀ {reach : String → Bool}, Loop.Answers reach li command →
      i ≠ .answer false → reach = fun _ => true := by
    rintro reach (hall | ⟨hfailed, -⟩) hok
    · exact hall
    · exact absurd (hfails hfailed) hok
  simp only [written, phase_resume, frames_resume, hasked]
  cases hprogress with
  | @asks actor call more hcommand _ hlags =>
      have hmore : more.foldl settle r.node.results = r.node.results := by
        have hall := settle_of_lags hlags r.node.results
        rwa [List.foldl_append, hsettled] at hall
      refine ⟨[], c, sent ++ more, .suspended hinput rfl rfl, ⟨by rw [hactor]; exact hlags, ?_⟩, ?_⟩
      · refine hnode.trans ?_
        rw [hunfinished, hcommand]
        simp only [resume, hmore]
        rfl
      · rw [sentFrames_append, hframes]
        rfl
  | @returns reach actor' ev more hreach hprocess heffects =>
      have hsteps : (Node.machine calculateHash E).step c (.actor reach) = _ :=
        step_handled hactor hqueue hprocess
      have hdone : (c.handleCommand reach command queue).1 =
          { c with actor := some actor', queue := queue, results := ev.effects.foldl settle c.results } := by
        simp only [handleCommand, hactor, hprocess]
      rw [hdone] at hsteps
      refine ⟨_, _, [], .handled hsteps hinput rfl (hsucceeds hreach) rfl ?_, ⟨⟨rfl, rfl⟩, ?_⟩, ?_⟩
      · simp [resume, hunfinished, command_of_process hprocess, returned_of_process hprocess]
      · rw [← heffects, List.foldl_append, hnode, hsettled]
        rfl
      · have hwritten : sentFrames ev.effects = sentFrames sent ++ asking r.phase := by
          rw [← heffects, sentFrames_append, hframes]
        rw [List.flatMap_singleton, hwritten]
        rfl
  | @panics reach ev more hreach hprocess heffects =>
      have hsteps : (Node.machine calculateHash E).step c (.actor reach) = _ :=
        step_handled hactor hqueue hprocess
      have hdone : (c.handleCommand reach command queue).1 =
          { c with
            actor := none, queue := []
            results := (ev.effects ++
              (queue.flatMap EchoTask.respondTo).map EchoBroadcast.Effect.drop).foldl settle c.results } := by
        simp only [handleCommand, hactor, hprocess]
      rw [hdone] at hsteps
      refine ⟨_, _, [], .handled hsteps hinput rfl (hsucceeds hreach) rfl ?_, ⟨⟨rfl, rfl⟩, ?_⟩, ?_⟩
      · simp [resume, hunfinished, command_of_process hprocess, returned_of_process hprocess]
      · rw [← heffects, List.foldl_append, hnode, hsettled]
        rfl
      · have hwritten : sentFrames ev.effects = sentFrames sent ++ asking r.phase := by
          rw [← hframes, ← sentFrames_append, heffects, sentFrames_append, sentFrames_drop,
            List.append_nil]
        rw [List.flatMap_singleton, hwritten]
        rfl

/-- **A step of the finer node is a step of the coarser one, or leaves it alone.** -/
theorem follows_of_step {i : Input E} {e : Event E} (h : Behind r sent c)
    (hs : (machine calculateHash E).step r i = some (r', e)) :
    ∃ tr' c' sent', Follows calculateHash c e tr' c' ∧ Behind r' sent' c' ∧
      (written r sent ++ e.frames).Perm (tr'.flatMap Node.Event.frames ++ written r' sent') := by
  cases moved_of_step hs with
  | @task input node' ev hadmits hreach hnode =>
      obtain ⟨hactor, hqueue, hprocessed, hinput⟩ := actor_of_task hnode hreach
      obtain ⟨c', hc', hbehind⟩ := behind_task h hadmits hreach hnode
      refine ⟨[ev], c', sent, .task hc' hinput hprocessed rfl, hbehind, ?_⟩
      rw [written, written, (unfinished_post hactor hqueue).1, List.flatMap_singleton]
      exact List.perm_append_comm
  | turn hturn hloop =>
      obtain ⟨tr', c', sent', hfollows, hbehind, hwritten⟩ := follows_turn h hturn hloop
      exact ⟨tr', c', sent', hfollows, hbehind, hwritten ▸ List.Perm.refl _⟩

/-! ## Runs of the finer node are runs of the coarser one -/

/-- The step of a task. -/
def Event.task? (e : Event E) : Option (Node.Input E) :=
  match e.input with
  | .task input => some input
  | _ => none

/-- **The finer and the coarser node side by side**: the tasks take the same steps and hand over the same
commands, the actor is through with the same commands, in the same order and with the same outcome, and
the same messages have gone out, but for those of a suspended Send. -/
structure Refines (tr : List (Event E)) (r : Awaiting E) (sent : List (EchoBroadcast.Effect E))
    (tr' : List (Node.Event E)) (c : Node E) : Prop where
  behind : Behind r sent c
  frames : (tr.flatMap Event.frames).Perm (tr'.flatMap Node.Event.frames ++ written r sent)
  tasks : tr.filterMap Event.task? =
    tr'.filterMap fun ev => if ev.processed.isNone then some ev.input else none
  handed : tr.filterMap Event.handed = tr'.filterMap Node.Event.handed
  finished : tr.filterMap Event.finished =
    tr'.filterMap fun ev => ev.processed.map fun event => (event.command, returned event)

theorem run_of_follows {e : Event E} {more : List (Node.Event E)} {c' : Node E}
    (h : Follows calculateHash c e more c') : (Node.machine calculateHash E).Run c more c' := by
  cases h with
  | suspended _ _ _ => exact .nil
  | task hs _ _ _ => exact Machine.RunWith.single hs trivial
  | handled hs _ _ _ _ _ => exact Machine.RunWith.single hs trivial

omit [DecidableEq E] in
theorem task?_of_turn {e : Event E} (hinput : ∀ input, e.input ≠ .task input) : e.task? = none := by
  unfold Event.task?
  split
  · next input heq => exact absurd heq (hinput input)
  · rfl

theorem refines_of_follows {tr : List (Event E)} {tr' more : List (Node.Event E)} {e : Event E}
    {sent' : List (EchoBroadcast.Effect E)} {c' : Node E} (h : Refines tr r sent tr' c)
    (hfollows : Follows calculateHash c e more c') (hbehind : Behind r' sent' c')
    (hwritten : (written r sent ++ e.frames).Perm (more.flatMap Node.Event.frames ++ written r' sent')) :
    Refines (tr ++ [e]) r' sent' (tr' ++ more) c' := by
  have hframes : ((tr ++ [e]).flatMap Event.frames).Perm
      ((tr' ++ more).flatMap Node.Event.frames ++ written r' sent') := by
    rw [List.flatMap_append, List.flatMap_singleton, List.flatMap_append, List.append_assoc]
    refine (h.frames.append_right _).trans ?_
    rw [List.append_assoc]
    exact hwritten.append_left _
  obtain ⟨-, -, htasks, hhanded, hfinished⟩ := h
  cases hfollows with
  | suspended hinput hnone hsilent =>
      exact ⟨hbehind, hframes, by simp [htasks, task?_of_turn hinput], by simp [hhanded, hnone],
        by simp [hfinished, hsilent]⟩
  | @task input ev _ _ hinput hprocessed he =>
      subst he
      exact ⟨hbehind, hframes, by simp [htasks, Event.task?, hprocessed, hinput],
        by cases hcommand : ev.handed <;> simp [hhanded, hcommand], by simp [hfinished, hprocessed]⟩
  | @handled reach event ev _ _ hinput hnone _ hev hdone =>
      subst hev
      exact ⟨hbehind, hframes, by simp [htasks, task?_of_turn hinput], by simp [hhanded, hnone],
        by simp [hfinished, hdone]⟩

/-- **Runs of the finer node are runs of the coarser one.** -/
theorem refines_of_run {address : String} {tr : List (Event E)}
    (hrun : (machine calculateHash E).Run (new address) tr r) :
    ∃ tr' c, (Node.machine calculateHash E).Run (Node.new.withBindAddress address) tr' c ∧
      ∃ sent, Refines tr r sent tr' c := by
  refine hrun.simulate (R := fun tr r tr' c => ∃ sent, Refines tr r sent tr' c)
    ⟨[], behind_idle _, List.Perm.nil, rfl, rfl, rfl⟩ ?_
  rintro tr r i r' e tr' c - ⟨sent, hrefines⟩ hs -
  obtain ⟨more, c', sent', hfollows, hbehind', hwritten⟩ := follows_of_step hrefines.behind hs
  exact ⟨more, c', run_of_follows hfollows, sent', refines_of_follows hrefines hfollows hbehind' hwritten⟩

/-! ## The actor of the finer node -/

/-- What a step is to the task of the actor and its channel. -/
def Event.loop? (e : Event E) : Option (LoopEvent E) :=
  match e.input.turn?, e.handed with
  | some i, _ => some ⟨i, none, e.frames.head?, e.effects⟩
  | none, some (.send data members tx) =>
      some ⟨.send data members, some (.send data members tx), none, []⟩
  | none, _ => none

omit [DecidableEq E] in
/-- The task of the actor takes a step of its own. -/
theorem loop_turn {l' : Loop E} {i : Input E} {li : LoopInput E} {le : LoopEvent E} (h : Behind r sent c)
    (hturn : i.turn? = some li) (hs : r.loop.step li = some (l', le)) :
    (r.resume i l' le).1.loop = l' ∧ (r.resume i l' le).2.loop? = some le := by
  obtain ⟨first, command, queue, -, -, hprogress⟩ := Loop.progress_of_step hs (turn_cases hturn).1 h.lags
  cases hprogress <;> simp [resume, loop, phase, Event.loop?, hturn]

/-- A command is posted to the task of the actor, or nothing happens to it. -/
theorem loop_task {input : Node.Input E} {node' : Node E} {ev : Node.Event E}
    (hadmits : r.admits input = true) (hreach : ∀ reach, input ≠ .actor reach)
    (hs : (Node.machine calculateHash E).step r.node input = some (node', ev)) :
    ((⟨.task input, ev.frames, ev.handed, [], none⟩ : Event E).loop? = none ∧
        (⟨node', r.sending⟩ : Awaiting E).loop = r.loop) ∨
      ∃ i le, (⟨.task input, ev.frames, ev.handed, [], none⟩ : Event E).loop? = some le ∧
        (Loop.machine E).step r.loop i = some ((⟨node', r.sending⟩ : Awaiting E).loop, le) := by
  cases stepped_of_step hs with
  | @posted j nanos data members hsend =>
      have halive : r.node.actor ≠ none := by
        intro hgone
        simp [Node.machine, Node.step, hsend, hgone, Event.quiet] at hs
      have hroom : r.node.queue.length < commandCapacity := by simpa [admits, halive] using hadmits
      have hphase : r.phase ≠ .ended := by
        unfold phase
        split
        · next hgone => exact absurd hgone halive
        · simp
        · simp
      refine Or.inr ⟨.send data members, _, rfl, ?_⟩
      simp only [Loop.machine, Loop.step, Loop.post, loop, hroom, if_true]
      rfl
  | handled _ _ => exact absurd rfl (hreach _)
  | _ => exact Or.inl ⟨rfl, rfl⟩

/-- **The actor of the finer node runs the loop of the echo broadcast task.** -/
theorem loop_of_run {address : String} {tr : List (Event E)}
    (hrun : (machine calculateHash E).Run (new address) tr r) :
    (Loop.machine E).Run .start (tr.filterMap Event.loop?) r.loop := by
  have hboth : (∃ sent c, Behind r sent c) ∧
      (Loop.machine E).Run .start (tr.filterMap Event.loop?) r.loop := by
    refine hrun.invariant (I := fun tr r => (∃ sent c, Behind r sent c) ∧
      (Loop.machine E).Run .start (tr.filterMap Event.loop?) r.loop)
      ⟨⟨[], _, behind_idle _⟩, .nil⟩ ?_
    intro tr r i r' e _ ih hs _
    obtain ⟨⟨sent, c, hbehind⟩, hloop⟩ := ih
    obtain ⟨-, c', sent', -, hbehind', -⟩ := follows_of_step hbehind hs
    refine ⟨⟨sent', c', hbehind'⟩, ?_⟩
    have hstep : (e.loop? = none ∧ r'.loop = r.loop) ∨
        ∃ i le, e.loop? = some le ∧ (Loop.machine E).step r.loop i = some (r'.loop, le) := by
      cases moved_of_step hs with
      | task hadmits hreach hnode => exact loop_task hadmits hreach hnode
      | turn hturn hstep =>
          obtain ⟨hsame, hshown⟩ := loop_turn hbehind hturn hstep
          exact Or.inr ⟨_, _, hshown, by rw [hsame]; exact hstep⟩
    rw [List.filterMap_append]
    rcases hstep with ⟨hnone, hsame⟩ | ⟨i', le, hsome, hs'⟩
    · simpa [hnone, hsame] using hloop
    · simpa [hsome] using hloop.snoc hs' trivial
  exact hboth.2

end Awaiting

end FrostFederation.Node
