/-
# FrostFederation.Connection.Stack — the two tasks of one connection and the channels between them.

`run_connection_actor` and `start_reliable_sender` of one connection, joined by the bounded COMMAND
channel, the bounded SUBSCRIBER channel, and the oneshot reply of `ConnectionHandle::send`.  Around
them are the request channel, into which clients put messages, and the client channel, from which the
event loop takes them.  A step is a piece of one task between two awaits, so every scheduling of the
two tasks is a run; the branches of a `select!` are taken in any order.

`ConnectionHandle::send` suspends the reliable sender twice: until there is room in the command
channel, and until the reply comes.  The connection actor, for its part, is suspended while the
subscriber channel is full.  The two can wait for each other, and then do so for ever
(`stuck_of_run`).  They do not if the connection actor reads nothing while the subscriber is
full and the sender waits for it, and the sender takes no request while the connection actor waits.
-/
import FrostFederation.Connection.Actor

namespace FrostFederation.Connection

open FrostFederation.Lib
open FrostFederation.Lib.Serde (Format)
open FrostFederation.Protocol
open FrostFederation.ReliableSender (ReliableNetworkMessage ReliableSenderActor)

/-! ## State -/

/-- What the reliable sender goes on with when `ConnectionHandle::send` returns: the next message of
its loop, or the received message it has acknowledged. -/
inductive Then where
  | loop
  | passUp (message : Message)

/-- Where `start_reliable_sender` stands. -/
inductive SenderPhase where
  | selecting
  | posting (frame : ReliableNetworkMessage) (andThen : Then)
  | awaiting (tx : Oneshot) (andThen : Then)
  | passingUp (message : Message)
  /-- The task is gone, and with it the ends of the channels it held. -/
  | ended

structure Stack (N : Type) where
  conn : ConnectionTask N
  commands : List ConnectionMessage
  subscriber : List ReliableNetworkMessage
  /-- What came back on a oneshot of `ConnectionHandle::send`: `Ok(())`, or nothing any more. -/
  replies : Oneshot → Option Bool
  opened : Nat
  sender : ReliableSenderActor
  phase : SenderPhase
  requests : List (Message × Oneshot)
  /-- How many oneshots the clients have opened. -/
  requested : Nat
  /-- The last handle of the reliable sender was dropped. -/
  requestsClosed : Bool
  client : List Message
  /-- The event loop still has the receiver of the client channel. -/
  clientOpen : Bool

inductive StackInput (B : Type) where
  /-- The branches of the connection actor, and its await. -/
  | takeCommand (written : Bool)
  | takeItem (item : Option (Item B))
  | forward
  /-- The branches of the reliable sender, and its awaits. -/
  | takeRequest
  | takeNetwork
  | post
  | resume
  | passUp
  | spin
  /-- The clients and the event loop. -/
  | request (message : Message)
  | closeRequests
  | consume
  | closeClient

structure StackEvent (B : Type) where
  input : StackInput B
  connection : Option (Event B)
  effects : List ReliableSender.Effect

/-- The capacity of the command, subscriber, request and client channels. -/
def channelCapacity : Nat := 32

namespace Stack

variable {N B : Type} [NoiseIo N B]

def start (noise : N) : Stack N where
  conn := ⟨noise, .selecting⟩
  commands := []
  subscriber := []
  replies _ := none
  opened := 0
  sender := .new
  phase := .selecting
  requests := []
  requested := 0
  requestsClosed := false
  client := []
  clientOpen := true

/-! ## The connection actor -/

/-- What the effects of the connection actor do to the callers of `ConnectionHandle::send`. -/
def settle (replies : Oneshot → Option Bool) : Effect B → Oneshot → Option Bool
  | .respond tx => Function.update replies tx (some true)
  | .drop tx => Function.update replies tx (some false)
  | _ => replies

/-- A task that has ended drops the commands it has not taken. -/
def dropCommands (s : Stack N) : Stack N :=
  match s.conn.phase with
  | .selecting => s
  | .forwarding _ => s
  | .returned | .panicked =>
      { s with
        commands := []
        replies := s.commands.foldl
          (fun replies command => match command with
            | .send _ tx => Function.update replies tx (some false)) s.replies }

/-- The connection actor takes a step. -/
def advance (flexbuffers : Format B) (s : Stack N) (input : StackInput B) (i : Input B) :
    Option (Stack N × StackEvent B) :=
  ((ConnectionTask.machine flexbuffers).step s.conn i).map fun r =>
    (dropCommands { s with conn := r.1, replies := r.2.effects.foldl settle s.replies },
      ⟨input, some r.2, []⟩)

/-! ## The reliable sender -/

/-- `ConnectionHandle::send` up to the await of its reply.  A command for a task that has ended is
dropped on the spot. -/
def post (s : Stack N) (frame : ReliableNetworkMessage) (andThen : Then) : Option (Stack N) :=
  let posted := { s with phase := .awaiting s.opened andThen, opened := s.opened + 1 }
  match s.conn.phase with
  | .returned | .panicked =>
      some { posted with replies := Function.update s.replies s.opened (some false) }
  | _ =>
      if s.commands.length < channelCapacity then
        some { posted with commands := s.commands ++ [.send frame s.opened] }
      else none

/-- What the sender does with the result of `ConnectionHandle::send`. -/
def resumed (ok : Bool) : Then → SenderPhase
  | .loop => .selecting
  | .passUp message => if ok then .passingUp message else .selecting

/-- A message from the subscriber channel: a data frame is acknowledged first. -/
def takeNetwork (s : Stack N) (frame : ReliableNetworkMessage) : Stack N × List ReliableSender.Effect :=
  match frame with
  | .send message sequenceNumber =>
      ({ s with phase := .posting (.ack sequenceNumber) (.passUp message) }, [])
  | .ack sequenceNumber =>
      let r := s.sender.receiveFrame true (.ack sequenceNumber)
      ({ s with sender := r.1 }, r.2.1)

/-! ## Steps -/

/-- A step that shows only its input. -/
def quiet (s : Stack N) (input : StackInput B) : Stack N × StackEvent B := (s, ⟨input, none, []⟩)

def step (flexbuffers : Format B) (s : Stack N) (input : StackInput B) :
    Option (Stack N × StackEvent B) :=
  match input with
  | .takeCommand written =>
      match s.commands with
      | [] => none
      | command :: rest =>
          { s with commands := rest }.advance flexbuffers input (.command command written)
  | .takeItem item => s.advance flexbuffers input (.next item)
  | .forward =>
      match s.conn.phase, s.phase with
      | .forwarding _, .ended => s.advance flexbuffers input (.forward false)
      | .forwarding message, _ =>
          if s.subscriber.length < channelCapacity then
            { s with subscriber := s.subscriber ++ [message] }.advance flexbuffers input
              (.forward true)
          else none
      | _, _ => none
  | .takeRequest =>
      match s.phase, s.requests with
      | .selecting, (message, respondTo) :: rest =>
          -- the number is taken and the waiter stored before the connection is asked
          let r := s.sender.handleMessage true message respondTo
          some ({ s with
            requests := rest, sender := r.1
            phase := .posting (.send message r.1.sequenceNumber) .loop }.quiet input)
      | _, _ => none
  | .takeNetwork =>
      match s.phase, s.subscriber with
      | .selecting, frame :: rest =>
          let r := { s with subscriber := rest }.takeNetwork frame
          some (r.1, ⟨input, none, r.2⟩)
      | _, _ => none
  | .post =>
      match s.phase with
      | .posting frame andThen => (s.post frame andThen).map (·.quiet input)
      | _ => none
  | .resume =>
      match s.phase with
      | .awaiting tx andThen =>
          (s.replies tx).map fun ok => { s with phase := resumed ok andThen }.quiet input
      | _ => none
  | .passUp =>
      match s.phase, s.clientOpen with
      | .passingUp message, true =>
          if s.client.length < channelCapacity then
            some ({ s with client := s.client ++ [message], phase := .selecting },
              ⟨input, none, [.clientSend message true]⟩)
          else none
      | .passingUp message, false =>
          some ({ s with phase := .selecting }, ⟨input, none, [.clientSend message false]⟩)
      | _, _ => none
  | .spin =>
      -- both receivers are closed and empty: the `else` branch logs and the loop goes on
      match s.phase, s.conn.phase, s.subscriber, s.requests, s.requestsClosed with
      | .selecting, .returned, [], [], true => some (s.quiet input)
      | .selecting, .panicked, [], [], true => some (s.quiet input)
      | _, _, _, _, _ => none
  | .request message =>
      if s.requests.length < channelCapacity ∧ s.requestsClosed = false then
        some ({ s with
          requests := s.requests ++ [(message, s.requested)]
          requested := s.requested + 1 }.quiet input)
      else none
  | .closeRequests => some ({ s with requestsClosed := true }.quiet input)
  | .consume =>
      match s.client with
      | [] => none
      | _ :: rest => some ({ s with client := rest }.quiet input)
  | .closeClient =>
      -- a receiver that is dropped takes with it what it has not received
      some ({ s with clientOpen := false, client := [] }.quiet input)

def machine (flexbuffers : Format B) : Machine (Stack N) (StackInput B) (StackEvent B) :=
  ⟨step flexbuffers⟩

/-! ## What one step can do -/

variable {flexbuffers : Format B} {s s' : Stack N} {e : StackEvent B}

@[simp]
theorem dropCommands_conn : s.dropCommands.conn = s.conn := by
  unfold dropCommands
  split <;> rfl

@[simp]
theorem dropCommands_subscriber : s.dropCommands.subscriber = s.subscriber := by
  unfold dropCommands
  split <;> rfl

@[simp]
theorem dropCommands_phase : s.dropCommands.phase = s.phase := by
  unfold dropCommands
  split <;> rfl

/-- The task of the reliable sender has ended. -/
def senderEnded (s : Stack N) : Bool :=
  match s.phase with
  | .ended => true
  | _ => false

/-- The nine things a step of the stack can be.  A step of the connection actor is shown through its
own event `e'`. -/
inductive Stepped (flexbuffers : Format B) (s : Stack N) (e : StackEvent B) (s' : Stack N) : Prop
  | connection {e' : Event B} {commands : List ConnectionMessage}
      (hst : ConnectionTask.Stepped flexbuffers s.conn e' s'.conn)
      (hforward : ∀ subscribed, e'.input ≠ .forward subscribed)
      (hitem : ∀ item, e'.input = .next item → e.input = .takeItem item)
      (hs' : s' = dropCommands { s with
        conn := s'.conn, commands := commands
        replies := e'.effects.foldl settle s.replies }) : Stepped flexbuffers s e s'
  | forwarded {e' : Event B} {message : ReliableNetworkMessage}
      (hst : ConnectionTask.Stepped flexbuffers s.conn e' s'.conn)
      (hroom : s.subscriber.length < channelCapacity)
      (hinput : e'.input = .forward true)
      (hs' : s' = dropCommands { s with
        conn := s'.conn, subscriber := s.subscriber ++ [message]
        replies := e'.effects.foldl settle s.replies }) : Stepped flexbuffers s e s'
  | unsubscribed {e' : Event B} (hst : ConnectionTask.Stepped flexbuffers s.conn e' s'.conn)
      (hended : s.senderEnded = true) (hinput : e'.input = .forward false)
      (hs' : s' = dropCommands { s with
        conn := s'.conn, replies := e'.effects.foldl settle s.replies }) : Stepped flexbuffers s e s'
  | tookRequest {message : Message} {respondTo : Oneshot} {rest : List (Message × Oneshot)}
      (hinput : e.input = .takeRequest) (hphase : s.phase = .selecting)
      (hs' : s' = { s with
        requests := rest, sender := (s.sender.handleMessage true message respondTo).1
        phase := .posting (.send message (s.sender.handleMessage true message respondTo).1.sequenceNumber)
          .loop }) : Stepped flexbuffers s e s'
  | tookNetwork {frame : ReliableNetworkMessage} {rest : List ReliableNetworkMessage}
      (hphase : s.phase = .selecting) (hsubscriber : s.subscriber = frame :: rest)
      (hs' : s' = ({ s with subscriber := rest }.takeNetwork frame).1) : Stepped flexbuffers s e s'
  | posted {frame : ReliableNetworkMessage} {andThen : Then} (hphase : s.phase = .posting frame andThen)
      (hpost : s.post frame andThen = some s') : Stepped flexbuffers s e s'
  | resumed {tx : Oneshot} {andThen : Then} {ok : Bool} (hphase : s.phase = .awaiting tx andThen)
      (hreply : s.replies tx = some ok) (hs' : s' = { s with phase := resumed ok andThen }) :
      Stepped flexbuffers s e s'
  | passedUp {message : Message} {client : List Message} (hphase : s.phase = .passingUp message)
      (hs' : s' = { s with client := client, phase := .selecting }) : Stepped flexbuffers s e s'
  | around {requests : List (Message × Oneshot)} {requested : Nat} {requestsClosed clientOpen : Bool}
      {client : List Message} (hrequests : requestsClosed = s.requestsClosed ∨ e.input = .closeRequests)
      (hclient : clientOpen = s.clientOpen ∨ e.input = .closeClient)
      (hs' : s' = { s with
        requests := requests, requested := requested, requestsClosed := requestsClosed
        client := client, clientOpen := clientOpen }) : Stepped flexbuffers s e s'

/-- What a step of the connection actor leaves of the stack. -/
theorem advance_eq_some {input : StackInput B} {i : Input B}
    (h : s.advance flexbuffers input i = some (s', e)) :
    ∃ e', ConnectionTask.Stepped flexbuffers s.conn e' s'.conn ∧ e'.input = i ∧
      e.input = input ∧
      s' = dropCommands { s with conn := s'.conn, replies := e'.effects.foldl settle s.replies } := by
  obtain ⟨⟨t, e'⟩, hs, heq⟩ := Option.map_eq_some_iff.mp h
  obtain ⟨rfl, rfl⟩ := Prod.mk.inj heq
  refine ⟨e', ?_, ConnectionTask.input_of_step hs, rfl, ?_⟩
  · simpa using ConnectionTask.stepped_of_step hs
  · simp

/-- **Every step of the stack is one of the nine**, and shows its input. -/
theorem stepped_of_step {i : StackInput B} (hs : (machine flexbuffers).step s i = some (s', e)) :
    Stepped flexbuffers s e s' ∧ e.input = i := by
  cases i with
  | takeCommand written =>
      simp only [machine, step] at hs
      split at hs
      · cases hs
      · obtain ⟨e', hst, hinput, hitem, hs'⟩ := advance_eq_some hs
        exact ⟨.connection hst (by simp [hinput]) (by simp [hinput]) hs', hitem⟩
  | takeItem item =>
      obtain ⟨e', hst, hinput, hitem, hs'⟩ := advance_eq_some hs
      exact ⟨.connection hst (by simp [hinput]) (by simp [hinput, hitem]) hs', hitem⟩
  | forward =>
      simp only [machine, step] at hs
      split at hs
      · next hended =>
          obtain ⟨e', hst, hinput, hitem, hs'⟩ := advance_eq_some hs
          exact ⟨.unsubscribed hst (by rw [senderEnded, hended]) hinput hs', hitem⟩
      · split at hs
        · next hroom =>
            obtain ⟨e', hst, hinput, hitem, hs'⟩ := advance_eq_some hs
            exact ⟨.forwarded hst hroom hinput hs', hitem⟩
        · cases hs
      · cases hs
  | takeRequest =>
      simp only [machine, step] at hs
      split at hs
      · next hphase _ =>
          cases hs
          exact ⟨.tookRequest rfl hphase rfl, rfl⟩
      · cases hs
  | takeNetwork =>
      simp only [machine, step] at hs
      split at hs
      · next hphase hsubscriber =>
          cases hs
          exact ⟨.tookNetwork hphase hsubscriber rfl, rfl⟩
      · cases hs
  | post =>
      simp only [machine, step] at hs
      split at hs
      · next hphase =>
          obtain ⟨s₁, hpost, heq⟩ := Option.map_eq_some_iff.mp hs
          cases heq
          exact ⟨.posted hphase hpost, rfl⟩
      · cases hs
  | resume =>
      simp only [machine, step] at hs
      split at hs
      · next hphase =>
          obtain ⟨ok, hreply, heq⟩ := Option.map_eq_some_iff.mp hs
          cases heq
          exact ⟨.resumed hphase hreply rfl, rfl⟩
      · cases hs
  | passUp =>
      simp only [machine, step] at hs
      split at hs
      · next hphase _ =>
          split at hs
          · cases hs
            exact ⟨.passedUp hphase rfl, rfl⟩
          · cases hs
      · next hphase _ =>
          cases hs
          exact ⟨.passedUp hphase rfl, rfl⟩
      · cases hs
  | spin =>
      simp only [machine, step] at hs
      split at hs <;> cases hs <;> exact ⟨.around (.inl rfl) (.inl rfl) rfl, rfl⟩
  | request message =>
      simp only [machine, step] at hs
      split at hs
      · cases hs
        exact ⟨.around (.inl rfl) (.inl rfl) rfl, rfl⟩
      · cases hs
  | closeRequests =>
      cases hs
      exact ⟨.around (.inr rfl) (.inl rfl) rfl, rfl⟩
  | consume =>
      simp only [machine, step] at hs
      split at hs
      · cases hs
      · cases hs
        exact ⟨.around (.inl rfl) (.inl rfl) rfl, rfl⟩
  | closeClient =>
      cases hs
      exact ⟨.around (.inl rfl) (.inr rfl) rfl, rfl⟩

theorem post_eq_some {frame : ReliableNetworkMessage} {andThen : Then}
    (h : s.post frame andThen = some s') :
    (∃ commands replies, s' = { s with
      commands := commands, replies := replies
      phase := .awaiting s.opened andThen, opened := s.opened + 1 }) ∧
      (s.conn.phase.Live → s.commands.length < channelCapacity) := by
  unfold post at h
  split at h
  · next hphase =>
      cases h
      exact ⟨⟨_, _, rfl⟩, by simp [hphase]⟩
  · next hphase =>
      cases h
      exact ⟨⟨_, _, rfl⟩, by simp [hphase]⟩
  · split at h
    · next hroom =>
        cases h
        exact ⟨⟨_, _, rfl⟩, fun _ => hroom⟩
    · cases h

/-- **No step ends the loop of the reliable sender**: whatever goes wrong in it is logged. -/
theorem senderEnded_of_stepped (hst : Stepped flexbuffers s e s') (h : s.senderEnded = false) :
    s'.senderEnded = false := by
  cases hst with
  | connection _ _ _ hs' =>
      rw [hs', senderEnded, dropCommands_phase]
      exact h
  | forwarded _ _ _ hs' =>
      rw [hs', senderEnded, dropCommands_phase]
      exact h
  | unsubscribed _ hended => simp [hended] at h
  | tookRequest _ _ hs' =>
      rw [hs']
      rfl
  | @tookNetwork frame rest hphase _ hs' =>
      rw [hs', senderEnded]
      cases frame with
      | send message n => rfl
      | ack n => simp [takeNetwork, hphase]
  | posted _ hpost =>
      obtain ⟨⟨_, _, hs'⟩, -⟩ := post_eq_some hpost
      rw [hs']
      rfl
  | @resumed tx andThen ok _ _ hs' =>
      rw [hs']
      cases andThen <;> cases ok <;> rfl
  | passedUp _ hs' =>
      rw [hs']
      rfl
  | around _ _ hs' =>
      rw [hs']
      exact h

/-- The outer ends of the channels of the stack are all in place. -/
def Attached (s : Stack N) : Prop := s.requestsClosed = false ∧ s.clientOpen = true

theorem attached_dropCommands : s.dropCommands.Attached ↔ s.Attached := by
  unfold Attached dropCommands
  split <;> exact Iff.rfl

/-- The channels lose an outer end only where it is dropped. -/
theorem attached_of_stepped (hst : Stepped flexbuffers s e s') (h : s.Attached)
    (hrequests : e.input ≠ .closeRequests) (hclient : e.input ≠ .closeClient) : s'.Attached := by
  cases hst with
  | connection _ _ _ hs' =>
      rw [hs', attached_dropCommands]
      exact h
  | forwarded _ _ _ hs' =>
      rw [hs', attached_dropCommands]
      exact h
  | unsubscribed _ _ _ hs' =>
      rw [hs', attached_dropCommands]
      exact h
  | tookRequest _ _ hs' =>
      rw [hs']
      exact h
  | @tookNetwork frame rest _ _ hs' =>
      rw [hs']
      cases frame <;> exact h
  | posted _ hpost =>
      obtain ⟨⟨_, _, hs'⟩, -⟩ := post_eq_some hpost
      rw [hs']
      exact h
  | resumed _ _ hs' =>
      rw [hs']
      exact h
  | passedUp _ hs' =>
      rw [hs']
      exact h
  | around hrequests' hclient' hs' =>
      rw [hs']
      exact ⟨(hrequests'.resolve_right hrequests).trans h.1, (hclient'.resolve_right hclient).trans h.2⟩

/-! ## Waiting in a cycle -/

/-- The connection actor waits for room in the subscriber channel. -/
def blocked (s : Stack N) : Bool :=
  match s.conn.phase with
  | .forwarding _ => decide (channelCapacity ≤ s.subscriber.length)
  | _ => false

/-- The reliable sender is in `ConnectionHandle::send` and has no reply yet. -/
def waiting (s : Stack N) : Bool :=
  match s.phase with
  | .posting _ _ => true
  | .awaiting tx _ => (s.replies tx).isNone
  | _ => false

/-- The reliable sender is suspended in `ConnectionHandle::send`. -/
def suspended (s : Stack N) : Bool :=
  match s.phase with
  | .posting _ _ => decide (channelCapacity ≤ s.commands.length)
  | .awaiting tx _ => (s.replies tx).isNone
  | _ => false

/-- Each of the two tasks waits for the other. -/
def Stuck (s : Stack N) : Prop := s.blocked = true ∧ s.suspended = true

/-- A step in which no frame is read while the subscriber channel is full and the reliable sender
waits for the connection actor, and no request is taken while the connection actor is blocked. -/
def patient (s : Stack N) (e : StackEvent B) : Bool :=
  match e.input with
  | .takeItem (some (.frame _)) => !(decide (channelCapacity ≤ s.subscriber.length) && s.waiting)
  | .takeRequest => !s.blocked
  | _ => true

theorem blocked_eq_true :
    s.blocked = true ↔
      ∃ message, s.conn.phase = .forwarding message ∧ channelCapacity ≤ s.subscriber.length := by
  unfold blocked
  cases s.conn.phase <;> simp

theorem suspended_eq_true :
    s.suspended = true ↔
      (∃ frame andThen, s.phase = .posting frame andThen ∧ channelCapacity ≤ s.commands.length) ∨
        ∃ tx andThen, s.phase = .awaiting tx andThen ∧ s.replies tx = none := by
  unfold suspended
  cases s.phase <;> simp

/-- A task that is left forwarding has just read a frame; nobody was answered. -/
theorem forwarding_of_stepped {t t' : ConnectionTask N} {e' : Event B}
    {message : ReliableNetworkMessage} (hst : ConnectionTask.Stepped flexbuffers t e' t')
    (h : t'.phase = .forwarding message) :
    ∃ bytes, e'.input = .next (some (.frame bytes)) ∧ e'.effects = [.read bytes true] := by
  cases hst with
  | @read bytes _ _ _ _ hinput _ _ heff _ => exact ⟨bytes, hinput, heff⟩
  | wrote _ _ _ _ _ ht' => simp [ht'] at h
  | writeFailed _ _ _ _ _ ht' => simp [ht'] at h
  | unwritten _ _ _ hdead => simp [h] at hdead
  | undecodable _ _ _ _ _ ht' => simp [ht'] at h
  | unreadable _ _ _ _ ht' => simp [ht'] at h
  | ended _ _ _ _ ht' => simp [ht'] at h
  | forwarded _ _ _ ht' => simp [ht'] at h
  | unsubscribed _ _ _ ht' => simp [ht'] at h

/-- A task that is forwarding only forwards. -/
theorem forward_of_stepped {t t' : ConnectionTask N} {e' : Event B}
    {message : ReliableNetworkMessage} (hst : ConnectionTask.Stepped flexbuffers t e' t')
    (h : t.phase = .forwarding message) : ∃ subscribed, e'.input = .forward subscribed := by
  cases hst with
  | forwarded _ hinput => exact ⟨true, hinput⟩
  | unsubscribed _ hinput => exact ⟨false, hinput⟩
  | _ hphase =>
      rw [h] at hphase
      cases hphase

/-- No step of either task, of a client or of the peer leads out of a deadlock. -/
theorem stuck_of_stepped (hst : Stepped flexbuffers s e s') (h : s.Stuck) : s'.Stuck := by
  obtain ⟨hblocked, hsuspended⟩ := h
  obtain ⟨message, hforwarding, hfull⟩ := blocked_eq_true.mp hblocked
  -- the sender stands in `ConnectionHandle::send`, in no other phase
  have hphase : ∀ phase, s.phase = phase →
      (∃ frame andThen, phase = .posting frame andThen ∧ channelCapacity ≤ s.commands.length) ∨
        ∃ tx andThen, phase = .awaiting tx andThen ∧ s.replies tx = none := by
    rintro phase rfl
    exact suspended_eq_true.mp hsuspended
  cases hst with
  | connection hst hforward =>
      obtain ⟨subscribed, hinput⟩ := forward_of_stepped hst hforwarding
      exact absurd hinput (hforward subscribed)
  | forwarded _ hroom => omega
  | unsubscribed _ hended => cases hp : s.phase <;> simp [senderEnded, hp, suspended] at hended hsuspended
  | tookRequest _ hselecting => simpa using hphase _ hselecting
  | tookNetwork hselecting => simpa using hphase _ hselecting
  | posted hposting hpost =>
      have hroom := (post_eq_some hpost).2 (by simp [hforwarding])
      have hcommands : channelCapacity ≤ s.commands.length := by simpa using hphase _ hposting
      omega
  | resumed hawaiting hreply => simpa [hreply] using hphase _ hawaiting
  | passedUp hpassing => simpa using hphase _ hpassing
  | around _ _ hs' =>
      rw [hs']
      exact ⟨hblocked, hsuspended⟩

/-- **A deadlock is for ever.** -/
theorem stuck_of_run {G : Stack N → StackEvent B → Prop} {tr : List (StackEvent B)}
    (hrun : (machine flexbuffers).RunWith G s tr s') (h : s.Stuck) : s'.Stuck := by
  refine hrun.invariant (I := fun _ s => s.Stuck) h ?_
  intro tr s i s' e _ hstuck hs _
  exact stuck_of_stepped (stepped_of_step hs).1 hstuck

/-- What the patient steps keep: the subscriber channel is within its bounds, and the connection
actor is not blocked while the reliable sender waits for it. -/
structure Safe (s : Stack N) : Prop where
  bounded : s.subscriber.length ≤ channelCapacity
  apart : ¬(s.blocked = true ∧ s.waiting = true)

theorem safe_of_room (hroom : s'.subscriber.length < channelCapacity) : Safe s' := by
  refine ⟨hroom.le, fun ⟨hblocked, _⟩ => ?_⟩
  obtain ⟨message, -, hfull⟩ := blocked_eq_true.mp hblocked
  omega

/-- A step that leaves the connection actor and the subscriber channel alone is safe if the sender
waited before, or does not wait afterwards. -/
theorem safe_of_sender (h : Safe s) (hconn : s'.conn = s.conn)
    (hsubscriber : s'.subscriber = s.subscriber)
    (hwaiting : s'.waiting = true → s.waiting = true ∨ s.blocked = false) : Safe s' := by
  have hblocked : s'.blocked = s.blocked := by rw [blocked, blocked, hconn, hsubscriber]
  refine ⟨by rw [hsubscriber]; exact h.bounded, fun ⟨hb, hw⟩ => ?_⟩
  rw [hblocked] at hb
  rcases hwaiting hw with hold | hfree
  · exact h.apart ⟨hb, hold⟩
  · rw [hb] at hfree
    cases hfree

theorem safe_of_stepped (hst : Stepped flexbuffers s e s') (hpatient : s.patient e = true)
    (h : Safe s) : Safe s' := by
  cases hst with
  | @connection e' commands hst hforward hitem hs' =>
      have hsubscriber : s'.subscriber = s.subscriber := by rw [hs', dropCommands_subscriber]
      refine ⟨by rw [hsubscriber]; exact h.bounded, fun ⟨hblocked, hwaiting⟩ => ?_⟩
      obtain ⟨message, hforwarding, hfull⟩ := blocked_eq_true.mp hblocked
      obtain ⟨bytes, hread, heff⟩ := forwarding_of_stepped hst hforwarding
      -- nobody was answered and no command was dropped, so the sender waited before as well
      have hbefore : s.waiting = true := by
        rw [hs'] at hwaiting
        simpa [heff, settle, dropCommands, hforwarding, waiting] using hwaiting
      rw [hsubscriber] at hfull
      simp [patient, hitem _ hread, hfull, hbefore] at hpatient
  | @forwarded e' message hst hroom hinput hs' =>
      refine ⟨?_, fun ⟨hblocked, _⟩ => ?_⟩
      · rw [hs', dropCommands_subscriber, List.length_append]
        exact hroom
      · obtain ⟨message, hforwarding, -⟩ := blocked_eq_true.mp hblocked
        obtain ⟨bytes, hread, -⟩ := forwarding_of_stepped hst hforwarding
        rw [hinput] at hread
        cases hread
  | @unsubscribed e' hst _ hinput hs' =>
      refine ⟨?_, fun ⟨hblocked, _⟩ => ?_⟩
      · rw [hs', dropCommands_subscriber]
        exact h.bounded
      · obtain ⟨message, hforwarding, -⟩ := blocked_eq_true.mp hblocked
        obtain ⟨bytes, hread, -⟩ := forwarding_of_stepped hst hforwarding
        rw [hinput] at hread
        cases hread
  | tookRequest hinput _ hs' =>
      rw [hs']
      exact safe_of_sender h rfl rfl fun _ => Or.inr (by simpa [patient, hinput] using hpatient)
  | @tookNetwork frame rest _ hsubscriber hs' =>
      apply safe_of_room
      have hbounded := h.bounded
      rw [hsubscriber, List.length_cons] at hbounded
      rw [hs']
      cases frame <;> exact hbounded
  | posted hphase hpost =>
      obtain ⟨⟨_, _, hs'⟩, -⟩ := post_eq_some hpost
      rw [hs']
      exact safe_of_sender h rfl rfl fun _ => Or.inl (by rw [waiting, hphase])
  | @resumed tx andThen ok _ _ hs' =>
      rw [hs']
      refine safe_of_sender h rfl rfl fun hw => ?_
      cases andThen <;> cases ok <;> simp [waiting, resumed] at hw
  | passedUp _ hs' =>
      rw [hs']
      exact safe_of_sender h rfl rfl (by simp [waiting])
  | around _ _ hs' =>
      rw [hs']
      exact safe_of_sender h rfl rfl Or.inl

/-- **Patient tasks never wait on each other in a cycle.** -/
theorem not_stuck_of_run {noise : N} {tr : List (StackEvent B)}
    (hrun : (machine flexbuffers).RunWith (fun s e => s.patient e = true) (start noise) tr s) :
    ¬s.Stuck := by
  have hsafe : Safe s := by
    refine hrun.invariant (I := fun _ s => Safe s) ⟨by simp [start], by simp [start, blocked]⟩ ?_
    intro tr s i s' e _ hinv hs hpatient
    exact safe_of_stepped (stepped_of_step hs).1 hpatient hinv
  rintro ⟨hblocked, hsuspended⟩
  refine hsafe.apart ⟨hblocked, ?_⟩
  rcases suspended_eq_true.mp hsuspended with ⟨frame, andThen, hphase, -⟩ | ⟨tx, andThen, hphase, hreply⟩
  · simp [waiting, hphase]
  · simp [waiting, hphase, hreply]

/-- The peer sends acknowledgements and nothing else. -/
def ackFrame (n : Nat) : Serde.Value × List (Bool × Nat) :=
  (.variant "Ack" (.uint 0), [(false, n)])

/-- The peer sends one frame more than the subscriber channel holds, and the reliable sender takes a
request. -/
def burst : List (StackInput (Serde.Value × List (Bool × Nat))) :=
  (List.range channelCapacity).flatMap (fun n => [.takeItem (some (.frame (ackFrame n))), .forward]) ++
    [.takeItem (some (.frame (ackFrame channelCapacity))),
      .request (.unicastMessage (.ping ⟨"localhost", "ping"⟩)), .takeRequest, .post]

/-- The connection as the accepting side starts it. -/
def accepted : Stack (NoiseHandler Snow.transparent) := start (.transporting true noSecret 0 0)

theorem stuck_burst :
    ∃ tr s, (machine bareValues).exec accepted burst = some (s, tr) ∧ s.Stuck := by
  have hstuck : ((machine bareValues).exec accepted burst).any
      (fun r => r.1.blocked && r.1.suspended) = true := by
    decide +kernel
  obtain ⟨⟨s, tr⟩, hexec, hs⟩ := (Option.any_eq_true _ _).mp hstuck
  exact ⟨tr, s, hexec, by simpa [Stuck] using hs⟩

/-- A request goes out, and a frame comes in while its reply is under way. -/
def unhurried : List (StackInput (Serde.Value × List (Bool × Nat))) :=
  [.request (.unicastMessage (.ping ⟨"localhost", "ping"⟩)), .takeRequest, .post,
    .takeItem (some (.frame (ackFrame 0))), .forward, .takeCommand true, .resume, .takeNetwork]

theorem not_stuck_of_run_unhurried :
    ∃ tr s, (machine bareValues).execWith patient accepted unhurried = some (s, tr) ∧ ¬s.Stuck := by
  have hexec : (machine bareValues).execWith patient accepted unhurried = some (_, _) := rfl
  exact ⟨_, _, hexec, not_stuck_of_run (Machine.runWith_of_execWith hexec)⟩

end Stack

end FrostFederation.Connection
