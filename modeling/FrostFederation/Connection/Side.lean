/-
# FrostFederation.Connection.Side — what one side of a connection has passed on, and to whom.

One side of a connection is a stack: the connection actor and the reliable sender over it.  This
module keeps its BOOKS.  Every step is shown with what it moves from one part of the side to the
next: a request from a client to the request channel, from there to the reliable sender, a frame into
the command channel, a frame out of the subscriber channel.  The books say that nothing is invented,
lost or reordered on the way, whatever the interleaving of the two tasks:

* the requests are started in the order they were submitted, and the k-th becomes the data frame with
  number k (`Numbering`);
* the frames the connection actor takes are a prefix of those posted, and all of them while it runs
  (`Commands`); what it delivers is what the reliable sender takes in, or will (`Books.subscriber`);
* an acknowledgement is posted for each data frame taken in, in order, and for nothing else;
* a client is answered only when the acknowledgement of its own number was taken in (`Waiters`);
* what is passed up to the client channel is a prefix of the data taken in, and all of it but the
  message in hand while the connection actor runs and the event loop listens (`Upward`);
* what the event loop receives is a prefix of what its client channel accepts, and all of it but what
  is still in the channel while the event loop listens (`Received`).
-/
import FrostFederation.Connection.Channel
import FrostFederation.Connection.Stack

namespace FrostFederation.Connection

open FrostFederation.Lib
open FrostFederation.Lib.Serde (Format)
open FrostFederation.Protocol
open FrostFederation.ReliableSender (ReliableNetworkMessage ReliableSenderActor)

/-! ## Steps that show what they move -/

/-- What a step moves from one part of a side to the next. -/
inductive Passage where
  | submitted (message : Message)
  | started (message : Message) (respondTo : Oneshot)
  | posted (frame : ReliableNetworkMessage)
  | took (frame : ReliableNetworkMessage)
  /-- The event loop receives a message. -/
  | consumed (message : Message)

namespace Passage

@[simp]
def submitted? : Passage → Option Message
  | .submitted message => some message
  | _ => none

@[simp]
def started? : Passage → Option (Message × Oneshot)
  | .started message respondTo => some (message, respondTo)
  | _ => none

@[simp]
def posted? : Passage → Option ReliableNetworkMessage
  | .posted frame => some frame
  | _ => none

@[simp]
def took? : Passage → Option ReliableNetworkMessage
  | .took frame => some frame
  | _ => none

@[simp]
def consumed? : Passage → Option Message
  | .consumed message => some message
  | _ => none

end Passage

def ConnectionMessage.data : ConnectionMessage → ReliableNetworkMessage
  | .send data _ => data

def ConnectionMessage.respondTo : ConnectionMessage → Oneshot
  | .send _ respondTo => respondTo

structure SideEvent (B : Type) extends StackEvent B where
  passage : Option Passage

namespace Stack

variable {N B : Type} [NoiseIo N B]

def passage (s : Stack N) : StackInput B → Option Passage
  | .request message => some (.submitted message)
  | .takeRequest => s.requests.head?.map fun request => .started request.1 request.2
  | .takeNetwork => s.subscriber.head?.map .took
  | .post =>
      match s.phase with
      | .posting frame _ => some (.posted frame)
      | _ => none
  | .consume => s.client.head?.map .consumed
  | _ => none

/-- The stack, with what each step moves. -/
def traced (flexbuffers : Format B) : Machine (Stack N) (StackInput B) (SideEvent B) :=
  ⟨fun s i => (step flexbuffers s i).map fun r => (r.1, ⟨r.2, s.passage i⟩)⟩

/-! ## Histories -/

/-- The message and the number of a data frame. -/
def data? : ReliableNetworkMessage → Option (Message × UInt64)
  | .send message n => some (message, n)
  | .ack _ => none

/-- The number of an acknowledgement. -/
def ack? : ReliableNetworkMessage → Option UInt64
  | .send _ _ => none
  | .ack n => some n

@[simp]
theorem data?_send (message : Message) (n : UInt64) : data? (.send message n) = some (message, n) := rfl

@[simp]
theorem data?_ack (n : UInt64) : data? (.ack n) = none := rfl

@[simp]
theorem ack?_send (message : Message) (n : UInt64) : ack? (.send message n) = none := rfl

@[simp]
theorem ack?_ack (n : UInt64) : ack? (.ack n) = some n := rfl

def offer? : ReliableSender.Effect → Option Message
  | .clientSend message _ => some message
  | _ => none

def accepted? : ReliableSender.Effect → Option Message
  | .clientSend message true => some message
  | _ => none

def answer? : ReliableSender.Effect → Option Oneshot
  | .respond tx (.ok ()) => some tx
  | _ => none

section Histories

variable (tr : List (SideEvent B))

def submitted : List Message := tr.filterMap fun e => e.passage.bind Passage.submitted?

def started : List (Message × Oneshot) := tr.filterMap fun e => e.passage.bind Passage.started?

def posted : List ReliableNetworkMessage := tr.filterMap fun e => e.passage.bind Passage.posted?

def took : List ReliableNetworkMessage := tr.filterMap fun e => e.passage.bind Passage.took?

/-- What the event loop receives from the client channel. -/
def consumed : List Message := tr.filterMap fun e => e.passage.bind Passage.consumed?

/-- The steps of the connection actor. -/
def connections : List (Event B) := tr.filterMap fun e => e.connection

/-- What the reliable sender offers to the client channel. -/
def offered : List Message := (tr.flatMap fun e => e.effects).filterMap offer?

/-- What the client channel accepts. -/
def delivered : List Message := (tr.flatMap fun e => e.effects).filterMap accepted?

/-- The clients that are told that their message was acknowledged. -/
def answered : List Oneshot := (tr.flatMap fun e => e.effects).filterMap answer?

/-- The messages of the data frames the reliable sender took in, with their numbers. -/
def processed : List (Message × UInt64) := (took tr).filterMap data?

variable {tr} (e : SideEvent B)

@[simp]
theorem submitted_snoc :
    submitted (tr ++ [e]) = submitted tr ++ (e.passage.bind Passage.submitted?).toList := by
  cases h : e.passage.bind Passage.submitted? <;> simp [submitted, h]

@[simp]
theorem started_snoc :
    started (tr ++ [e]) = started tr ++ (e.passage.bind Passage.started?).toList := by
  cases h : e.passage.bind Passage.started? <;> simp [started, h]

@[simp]
theorem posted_snoc :
    posted (tr ++ [e]) = posted tr ++ (e.passage.bind Passage.posted?).toList := by
  cases h : e.passage.bind Passage.posted? <;> simp [posted, h]

@[simp]
theorem took_snoc : took (tr ++ [e]) = took tr ++ (e.passage.bind Passage.took?).toList := by
  cases h : e.passage.bind Passage.took? <;> simp [took, h]

@[simp]
theorem processed_snoc :
    processed (tr ++ [e]) = processed tr ++ ((e.passage.bind Passage.took?).bind data?).toList := by
  rw [processed, took_snoc, List.filterMap_append]
  congr 1
  cases e.passage.bind Passage.took? with
  | none => rfl
  | some frame => cases frame <;> rfl

@[simp]
theorem consumed_snoc :
    consumed (tr ++ [e]) = consumed tr ++ (e.passage.bind Passage.consumed?).toList := by
  cases h : e.passage.bind Passage.consumed? <;> simp [consumed, h]

@[simp]
theorem connections_snoc : connections (tr ++ [e]) = connections tr ++ e.connection.toList := by
  cases h : e.connection <;> simp [connections, h]

@[simp]
theorem offered_snoc : offered (tr ++ [e]) = offered tr ++ e.effects.filterMap offer? := by
  simp [offered]

@[simp]
theorem delivered_snoc : delivered (tr ++ [e]) = delivered tr ++ e.effects.filterMap accepted? := by
  simp [delivered]

@[simp]
theorem answered_snoc : answered (tr ++ [e]) = answered tr ++ e.effects.filterMap answer? := by
  simp [answered]

end Histories

/-! ## What one step can do -/

variable {flexbuffers : Format B} {s s' : Stack N} {e : SideEvent B} {tr : List (SideEvent B)}

@[simp]
theorem dropCommands_requests : s.dropCommands.requests = s.requests := by
  unfold dropCommands
  split <;> rfl

@[simp]
theorem dropCommands_requested : s.dropCommands.requested = s.requested := by
  unfold dropCommands
  split <;> rfl

@[simp]
theorem dropCommands_sender : s.dropCommands.sender = s.sender := by
  unfold dropCommands
  split <;> rfl

@[simp]
theorem dropCommands_opened : s.dropCommands.opened = s.opened := by
  unfold dropCommands
  split <;> rfl

@[simp]
theorem dropCommands_client : s.dropCommands.client = s.client := by
  unfold dropCommands
  split <;> rfl

@[simp]
theorem dropCommands_clientOpen : s.dropCommands.clientOpen = s.clientOpen := by
  unfold dropCommands
  split <;> rfl

/-- The things a step of a side can be, with all they move. -/
inductive Passed (flexbuffers : Format B) (s : Stack N) : SideEvent B → Stack N → Prop
  | command {data : ReliableNetworkMessage} {tx : Oneshot} {rest : List ConnectionMessage}
      {written : Bool} {e' : Event B} {t' : ConnectionTask N}
      (hcommands : s.commands = .send data tx :: rest)
      (hst : ConnectionTask.Stepped flexbuffers s.conn e' t')
      (hinput : e'.input = .command (.send data tx) written) :
      Passed flexbuffers s ⟨⟨.takeCommand written, some e', []⟩, none⟩
        (dropCommands { s with
          conn := t', commands := rest, replies := e'.effects.foldl settle s.replies })
  | item {item : Option (Item B)} {e' : Event B} {t' : ConnectionTask N}
      (hst : ConnectionTask.Stepped flexbuffers s.conn e' t') (hinput : e'.input = .next item) :
      Passed flexbuffers s ⟨⟨.takeItem item, some e', []⟩, none⟩
        (dropCommands { s with conn := t', replies := e'.effects.foldl settle s.replies })
  | forwarded {message : ReliableNetworkMessage} (hphase : s.conn.phase = .forwarding message) :
      Passed flexbuffers s ⟨⟨.forward, some ⟨.forward true, [.deliver message]⟩, []⟩, none⟩
        { s with
          conn := { s.conn with phase := .selecting }, subscriber := s.subscriber ++ [message] }
  | unsubscribed {message : ReliableNetworkMessage} (hphase : s.conn.phase = .forwarding message) :
      Passed flexbuffers s ⟨⟨.forward, some ⟨.forward false, []⟩, []⟩, none⟩
        (dropCommands { s with conn := { s.conn with phase := .panicked } })
  | started {message : Message} {respondTo : Oneshot} {rest : List (Message × Oneshot)}
      (hphase : s.phase = .selecting) (hrequests : s.requests = (message, respondTo) :: rest) :
      Passed flexbuffers s ⟨⟨.takeRequest, none, []⟩, some (.started message respondTo)⟩
        { s with
          requests := rest
          sender := ⟨s.sender.waitingForAck.insert (s.sender.sequenceNumber + 1) (message, respondTo),
            s.sender.sequenceNumber + 1⟩
          phase := .posting (.send message (s.sender.sequenceNumber + 1)) .loop }
  | tookData {message : Message} {n : UInt64} {rest : List ReliableNetworkMessage}
      (hphase : s.phase = .selecting) (hsubscriber : s.subscriber = .send message n :: rest) :
      Passed flexbuffers s ⟨⟨.takeNetwork, none, []⟩, some (.took (.send message n))⟩
        { s with subscriber := rest, phase := .posting (.ack n) (.passUp message) }
  | tookAck {n : UInt64} {message : Message} {tx : Oneshot} {rest : List ReliableNetworkMessage}
      (hphase : s.phase = .selecting) (hsubscriber : s.subscriber = .ack n :: rest)
      (hheld : s.sender.waitingForAck.lookup n = some (message, tx)) :
      Passed flexbuffers s ⟨⟨.takeNetwork, none, [.respond tx (.ok ())]⟩, some (.took (.ack n))⟩
        { s with
          subscriber := rest
          sender := { s.sender with waitingForAck := s.sender.waitingForAck.erase n } }
  | tookStray {n : UInt64} {rest : List ReliableNetworkMessage} (hphase : s.phase = .selecting)
      (hsubscriber : s.subscriber = .ack n :: rest) :
      Passed flexbuffers s ⟨⟨.takeNetwork, none, []⟩, some (.took (.ack n))⟩
        { s with subscriber := rest }
  | queued {frame : ReliableNetworkMessage} {andThen : Then} (hphase : s.phase = .posting frame andThen)
      (hlive : s.conn.phase.Live) :
      Passed flexbuffers s ⟨⟨.post, none, []⟩, some (.posted frame)⟩
        { s with
          commands := s.commands ++ [.send frame s.opened]
          phase := .awaiting s.opened andThen, opened := s.opened + 1 }
  | refused {frame : ReliableNetworkMessage} {andThen : Then}
      (hphase : s.phase = .posting frame andThen) (hdead : ¬s.conn.phase.Live) :
      Passed flexbuffers s ⟨⟨.post, none, []⟩, some (.posted frame)⟩
        { s with
          replies := Function.update s.replies s.opened (some false)
          phase := .awaiting s.opened andThen, opened := s.opened + 1 }
  | resumed {tx : Oneshot} {andThen : Then} {ok : Bool} (hphase : s.phase = .awaiting tx andThen)
      (hreply : s.replies tx = some ok) :
      Passed flexbuffers s ⟨⟨.resume, none, []⟩, none⟩ { s with phase := Stack.resumed ok andThen }
  | passedUp {message : Message} (hphase : s.phase = .passingUp message) :
      Passed flexbuffers s ⟨⟨.passUp, none, [.clientSend message s.clientOpen]⟩, none⟩
        { s with
          client := if s.clientOpen then s.client ++ [message] else s.client, phase := .selecting }
  | consumed {message : Message} {rest : List Message} (hclient : s.client = message :: rest) :
      Passed flexbuffers s ⟨⟨.consume, none, []⟩, some (.consumed message)⟩ { s with client := rest }
  | closedClient :
      Passed flexbuffers s ⟨⟨.closeClient, none, []⟩, none⟩
        { s with clientOpen := false, client := [] }
  | submitted {message : Message} :
      Passed flexbuffers s ⟨⟨.request message, none, []⟩, some (.submitted message)⟩
        { s with requests := s.requests ++ [(message, s.requested)], requested := s.requested + 1 }
  | around {input : StackInput B} {requestsClosed : Bool}
      (hinput : ∀ item, input ≠ .takeItem item) :
      Passed flexbuffers s ⟨⟨input, none, []⟩, none⟩ { s with requestsClosed := requestsClosed }

/-- What a task does that is let go on with the message it holds. -/
theorem step_forward {t t' : ConnectionTask N} {message : ReliableNetworkMessage} {subscribed : Bool}
    {e' : Event B} (hphase : t.phase = .forwarding message)
    (hs : (ConnectionTask.machine flexbuffers).step t (.forward subscribed) = some (t', e')) :
    t' = { t with phase := if subscribed then .selecting else .panicked } ∧
      e' = ⟨.forward subscribed, if subscribed then [.deliver message] else []⟩ := by
  cases subscribed <;> simp only [ConnectionTask.machine, ConnectionTask.step, hphase] at hs <;>
    cases hs <;> simp

theorem passed_of_takeNetwork {frame : ReliableNetworkMessage} {rest : List ReliableNetworkMessage}
    (hphase : s.phase = .selecting) (hsubscriber : s.subscriber = frame :: rest) :
    Passed flexbuffers s
      ⟨⟨.takeNetwork, none, ({ s with subscriber := rest }.takeNetwork frame).2⟩, some (.took frame)⟩
      ({ s with subscriber := rest }.takeNetwork frame).1 := by
  cases frame with
  | send message n => exact .tookData hphase hsubscriber
  | ack n =>
      cases hheld : s.sender.waitingForAck.lookup n with
      | none =>
          simp only [takeNetwork, ReliableSenderActor.receiveFrame, hheld]
          exact .tookStray hphase hsubscriber
      | some waiter =>
          simp only [takeNetwork, ReliableSenderActor.receiveFrame, hheld]
          exact .tookAck hphase hsubscriber hheld

theorem passed_of_post {frame : ReliableNetworkMessage} {andThen : Then}
    (hphase : s.phase = .posting frame andThen) (hpost : s.post frame andThen = some s') :
    Passed flexbuffers s ⟨⟨.post, none, []⟩, some (.posted frame)⟩ s' := by
  unfold post at hpost
  split at hpost
  · next hconn =>
      cases hpost
      exact .refused hphase (by simp [hconn])
  · next hconn =>
      cases hpost
      exact .refused hphase (by simp [hconn])
  · next hreturned hpanicked =>
      split at hpost
      · cases hpost
        refine .queued hphase ?_
        cases hconn : s.conn.phase with
        | returned => exact absurd hconn hreturned
        | panicked => exact absurd hconn hpanicked
        | selecting => trivial
        | forwarding message => trivial
      · cases hpost

/-- **Every step of a side is one of these.** -/
theorem passed_of_step {i : StackInput B} (hs : (traced flexbuffers).step s i = some (s', e)) :
    Passed flexbuffers s e s' := by
  obtain ⟨⟨s₁, e₁⟩, hstep, heq⟩ := Option.map_eq_some_iff.mp hs
  obtain ⟨rfl, rfl⟩ := Prod.mk.inj heq
  cases i with
  | takeCommand written =>
      simp only [step] at hstep
      split at hstep
      · cases hstep
      · next command rest hcommands =>
          cases command
          obtain ⟨⟨t', e'⟩, hconn, heq⟩ := Option.map_eq_some_iff.mp hstep
          cases heq
          exact .command hcommands (ConnectionTask.stepped_of_step hconn)
            (ConnectionTask.input_of_step hconn)
  | takeItem item =>
      obtain ⟨⟨t', e'⟩, hconn, heq⟩ := Option.map_eq_some_iff.mp hstep
      cases heq
      exact .item (ConnectionTask.stepped_of_step hconn) (ConnectionTask.input_of_step hconn)
  | forward =>
      simp only [step] at hstep
      split at hstep
      · next message hphase _ =>
          obtain ⟨⟨t', e'⟩, hconn, heq⟩ := Option.map_eq_some_iff.mp hstep
          cases heq
          obtain ⟨rfl, rfl⟩ := step_forward hphase hconn
          exact .unsubscribed hphase
      · next message _ hphase _ =>
          split at hstep
          · obtain ⟨⟨t', e'⟩, hconn, heq⟩ := Option.map_eq_some_iff.mp hstep
            cases heq
            obtain ⟨rfl, rfl⟩ := step_forward hphase hconn
            exact .forwarded hphase
          · cases hstep
      · cases hstep
  | takeRequest =>
      simp only [step] at hstep
      split at hstep
      · next message respondTo rest hphase hrequests =>
          cases hstep
          simp only [passage, hrequests]
          exact .started hphase hrequests
      · cases hstep
  | takeNetwork =>
      simp only [step] at hstep
      split at hstep
      · next frame rest hphase hsubscriber =>
          cases hstep
          simp only [passage, hsubscriber]
          exact passed_of_takeNetwork hphase hsubscriber
      · cases hstep
  | post =>
      simp only [step] at hstep
      split at hstep
      · next frame andThen hphase =>
          obtain ⟨s₁, hpost, heq⟩ := Option.map_eq_some_iff.mp hstep
          cases heq
          simp only [passage, hphase]
          exact passed_of_post hphase hpost
      · cases hstep
  | resume =>
      simp only [step] at hstep
      split at hstep
      · next hphase =>
          obtain ⟨ok, hreply, heq⟩ := Option.map_eq_some_iff.mp hstep
          cases heq
          exact .resumed hphase hreply
      · cases hstep
  | passUp =>
      simp only [step] at hstep
      split at hstep
      · next message hphase hopen =>
          split at hstep
          · cases hstep
            have hpassed : Passed flexbuffers s _ _ := .passedUp hphase
            simpa [passage, hopen] using hpassed
          · cases hstep
      · next message hphase hopen =>
          cases hstep
          have hpassed : Passed flexbuffers s _ _ := .passedUp hphase
          simpa [passage, hopen] using hpassed
      · cases hstep
  | spin =>
      simp only [step] at hstep
      split at hstep <;> cases hstep <;> exact .around (by simp)
  | request message =>
      simp only [step] at hstep
      split at hstep
      · cases hstep
        exact .submitted
      · cases hstep
  | closeRequests =>
      cases hstep
      exact .around (by simp)
  | consume =>
      simp only [step] at hstep
      split at hstep
      · cases hstep
      · next message rest hclient =>
          cases hstep
          simp only [passage, hclient]
          exact .consumed hclient
  | closeClient =>
      cases hstep
      exact .closedClient

/-! ## Requests and their numbers -/

/-- The requests are started in the order in which they were submitted, and each has the oneshot that
was opened for it. -/
structure Requests (tr : List (SideEvent B)) (s : Stack N) : Prop where
  inOrder : started tr ++ s.requests = (submitted tr).zipIdx
  requested : s.requested = (submitted tr).length

theorem requests_passed (h : Requests tr s) (hst : Passed flexbuffers s e s') :
    Requests (tr ++ [e]) s' := by
  obtain ⟨hinOrder, hrequested⟩ := h
  cases hst with
  | submitted =>
      refine ⟨?_, by simp [hrequested]⟩
      simp [List.zipIdx_append, ← hinOrder, hrequested]
  | started hphase hrequests =>
      rw [hrequests] at hinOrder
      exact ⟨by simpa using hinOrder, by simpa using hrequested⟩
  | _ => exact ⟨by simpa using hinOrder, by simpa using hrequested⟩

omit [NoiseIo N B] in
/-- The oneshot of the next request is its position. -/
theorem Requests.next (h : Requests tr s) {message : Message} {respondTo : Oneshot}
    {rest : List (Message × Oneshot)} (hrequests : s.requests = (message, respondTo) :: rest) :
    respondTo = (started tr).length := by
  have hget : (submitted tr).zipIdx[(started tr).length]? = some (message, respondTo) := by
    rw [← h.inOrder, hrequests]
    simp
  rw [List.getElem?_zipIdx] at hget
  obtain ⟨x, -, hx⟩ := Option.map_eq_some_iff.mp hget
  have hsnd := congrArg Prod.snd hx
  simpa using hsnd.symm

/-- The number under which the request with a given oneshot goes out. -/
def number (tx : Oneshot) : UInt64 := UInt64.ofNat (tx + 1)

def numbered (request : Message × Oneshot) : Message × UInt64 := (request.1, number request.2)

/-- The frame that waits for room in the command channel. -/
def posting : SenderPhase → List ReliableNetworkMessage
  | .posting frame _ => [frame]
  | _ => []

@[simp]
theorem posting_posting (frame : ReliableNetworkMessage) (andThen : Then) :
    posting (.posting frame andThen) = [frame] := rfl

@[simp]
theorem posting_selecting : posting .selecting = [] := rfl

@[simp]
theorem posting_awaiting (tx : Oneshot) (andThen : Then) : posting (.awaiting tx andThen) = [] := rfl

@[simp]
theorem posting_passingUp (message : Message) : posting (.passingUp message) = [] := rfl

@[simp]
theorem posting_resumed (ok : Bool) (andThen : Then) : posting (resumed ok andThen) = [] := by
  cases andThen <;> cases ok <;> rfl

/-- The frames posted are the requests under their numbers, and the acknowledgements of the data taken
in, each in order. -/
structure Numbering (tr : List (SideEvent B)) (s : Stack N) : Prop where
  number : s.sender.sequenceNumber = UInt64.ofNat (started tr).length
  data : (posted tr ++ posting s.phase).filterMap data? = (started tr).map numbered
  acks : (posted tr ++ posting s.phase).filterMap ack? = (processed tr).map Prod.snd

theorem numbering_passed (h : Numbering tr s) (hrequests : Requests tr s)
    (hst : Passed flexbuffers s e s') : Numbering (tr ++ [e]) s' := by
  obtain ⟨hnumber, hdata, hacks⟩ := h
  cases hst with
  | started hphase hhead =>
      have hnext := hrequests.next hhead
      rw [hphase] at hdata hacks
      refine ⟨?_, ?_, ?_⟩
      · simp [hnumber, UInt64.ofNat_add]
      · simpa [numbered, Stack.number, hnext, hnumber, UInt64.ofNat_add] using hdata
      · simpa [List.filterMap_cons] using hacks
  | tookData hphase _ =>
      rw [hphase] at hdata hacks
      exact ⟨by simpa using hnumber, by simpa [List.filterMap_cons] using hdata, by simpa using hacks⟩
  | queued hphase _ =>
      rw [hphase] at hdata hacks
      exact ⟨by simpa using hnumber, by simpa using hdata, by simpa using hacks⟩
  | refused hphase _ =>
      rw [hphase] at hdata hacks
      exact ⟨by simpa using hnumber, by simpa using hdata, by simpa using hacks⟩
  | resumed hphase _ =>
      rw [hphase] at hdata hacks
      exact ⟨by simpa using hnumber, by simpa using hdata, by simpa using hacks⟩
  | passedUp hphase =>
      rw [hphase] at hdata hacks
      exact ⟨by simpa using hnumber, by simpa using hdata, by simpa using hacks⟩
  | _ => exact ⟨by simpa using hnumber, by simpa using hdata, by simpa using hacks⟩

/-! ## The command and the subscriber channel -/

theorem live_of_stepped {t t' : ConnectionTask N} {e' : Event B}
    (hst : ConnectionTask.Stepped flexbuffers t e' t') : t.phase.Live := by
  cases hst with
  | forwarded hphase | unsubscribed hphase | _ hphase => simp [hphase]

/-- Only a message that is let go on is delivered. -/
theorem delivered_of_stepped {t t' : ConnectionTask N} {e' : Event B}
    (hst : ConnectionTask.Stepped flexbuffers t e' t')
    (hinput : ∀ subscribed, e'.input ≠ .forward subscribed) : e'.delivered = [] := by
  cases hst with
  | forwarded _ hforward => exact absurd hforward (hinput true)
  | unsubscribed _ hforward => exact absurd hforward (hinput false)
  | wrote _ _ _ _ heff => simp [Event.delivered, heff]
  | writeFailed _ _ _ _ heff => simp [Event.delivered, heff]
  | unwritten _ _ heff => simp [Event.delivered, heff]
  | read _ _ _ _ heff => simp [Event.delivered, heff]
  | undecodable _ _ _ _ heff => simp [Event.delivered, heff]
  | unreadable _ _ _ heff => simp [Event.delivered, heff]
  | ended _ _ _ heff => simp [Event.delivered, heff]

theorem dropCommands_of_live (hlive : s.conn.phase.Live) : s.dropCommands = s := by
  cases hphase : s.conn.phase with
  | selecting => simp [dropCommands, hphase]
  | forwarding message => simp [dropCommands, hphase]
  | returned => simp [hphase] at hlive
  | panicked => simp [hphase] at hlive

theorem dropCommands_commands (hdead : ¬s.conn.phase.Live) : s.dropCommands.commands = [] := by
  cases hphase : s.conn.phase with
  | selecting => simp [hphase] at hdead
  | forwarding message => simp [hphase] at hdead
  | returned => simp [dropCommands, hphase]
  | panicked => simp [dropCommands, hphase]

/-- The frames the connection actor took from its command channel. -/
def commanded (tr : List (SideEvent B)) : List ReliableNetworkMessage :=
  (connections tr).filterMap Event.taken?

/-- The connection actor takes the frames that are posted in their order, and all of them while it
runs. -/
structure Commands (tr : List (SideEvent B)) (s : Stack N) : Prop where
  inOrder : commanded tr ++ s.commands.map ConnectionMessage.data <+: posted tr
  whole : s.conn.phase.Live → commanded tr ++ s.commands.map ConnectionMessage.data = posted tr

omit [NoiseIo N B] in
/-- A command channel that is dropped loses what was in it. -/
theorem commands_dropCommands
    (hinOrder : commanded tr ++ s.commands.map ConnectionMessage.data <+: posted tr)
    (hwhole : s.conn.phase.Live →
      commanded tr ++ s.commands.map ConnectionMessage.data = posted tr) :
    Commands tr s.dropCommands := by
  by_cases hlive : s.conn.phase.Live
  · rw [dropCommands_of_live hlive]
    exact ⟨hinOrder, hwhole⟩
  · refine ⟨?_, fun h => absurd (by simpa using h) hlive⟩
    rw [dropCommands_commands hlive, List.map_nil, List.append_nil]
    exact (List.prefix_append _ _).trans hinOrder

theorem commands_passed (h : Commands tr s) (hst : Passed flexbuffers s e s') :
    Commands (tr ++ [e]) s' := by
  obtain ⟨hinOrder, hwhole⟩ := h
  cases hst with
  | @command data tx rest written e' t' hcommands hst hinput =>
      have htaken : e'.taken? = some data := by rw [Event.taken?, hinput]
      rw [hcommands] at hinOrder hwhole
      have hlive := live_of_stepped hst
      apply commands_dropCommands
      · simpa [commanded, htaken, ConnectionMessage.data] using hinOrder
      · intro _
        simpa [commanded, htaken, ConnectionMessage.data] using hwhole hlive
  | @item item e' t' hst hinput =>
      have htaken : e'.taken? = none := by rw [Event.taken?, hinput]
      have hlive := live_of_stepped hst
      apply commands_dropCommands
      · simpa [commanded, htaken, List.filterMap_cons] using hinOrder
      · intro _
        simpa [commanded, htaken, List.filterMap_cons] using hwhole hlive
  | forwarded hphase =>
      exact ⟨by simpa [commanded, Event.taken?, List.filterMap_cons] using hinOrder,
        fun _ => by simpa [commanded, Event.taken?, List.filterMap_cons] using hwhole (by simp [hphase])⟩
  | unsubscribed hphase =>
      apply commands_dropCommands
      · simpa [commanded, Event.taken?, List.filterMap_cons] using hinOrder
      · simp
  | queued hphase hlive =>
      have hall := hwhole hlive
      refine ⟨?_, fun _ => ?_⟩
      · simp [commanded, ConnectionMessage.data, ← hall]
      · simp [commanded, ConnectionMessage.data, ← hall]
  | refused hphase hdead =>
      refine ⟨?_, fun hlive => absurd hlive hdead⟩
      simpa [commanded] using hinOrder.trans (List.prefix_append _ _)
  | _ => exact ⟨by simpa [commanded] using hinOrder, by simpa [commanded] using hwhole⟩

/-- **What the connection actor delivers is what the reliable sender takes in, or will.** -/
theorem subscriber_passed (h : took tr ++ s.subscriber = (connections tr).flatMap Event.delivered)
    (hst : Passed flexbuffers s e s') :
    took (tr ++ [e]) ++ s'.subscriber = (connections (tr ++ [e])).flatMap Event.delivered := by
  cases hst with
  | command _ hst hinput =>
      have hnone := delivered_of_stepped hst (by simp [hinput])
      simpa [hnone] using h
  | item hst hinput =>
      have hnone := delivered_of_stepped hst (by simp [hinput])
      simpa [hnone] using h
  | forwarded _ => simp [Event.delivered, ← h]
  | tookData _ hsubscriber => simpa [hsubscriber] using h
  | tookAck _ hsubscriber _ => simpa [hsubscriber] using h
  | tookStray _ hsubscriber => simpa [hsubscriber] using h
  | _ => simpa [Event.delivered] using h

/-! ## Acknowledgements -/

/-- A client waits under the number of its own request, and is answered only when that number has come
back. -/
structure Waiters (tr : List (SideEvent B)) (s : Stack N) : Prop where
  waiting : ∀ n message tx, s.sender.waitingForAck.lookup n = some (message, tx) →
    (message, tx) ∈ started tr ∧ n = number tx
  answered : ∀ tx ∈ answered tr,
    (∃ message, (message, tx) ∈ started tr) ∧ .ack (number tx) ∈ took tr

theorem waiters_passed (h : Waiters tr s) (hrequests : Requests tr s) (hnumbering : Numbering tr s)
    (hst : Passed flexbuffers s e s') : Waiters (tr ++ [e]) s' := by
  obtain ⟨hwaiting, hanswered⟩ := h
  cases hst with
  | @started message respondTo rest hphase hhead =>
      have hnext := hrequests.next hhead
      refine ⟨fun n message' tx hlookup => ?_, fun tx htx => ?_⟩
      · rw [HashMap.lookup_insert_eq_ite] at hlookup
        split at hlookup
        · next hn =>
            obtain ⟨rfl, rfl⟩ : message = message' ∧ respondTo = tx := by simpa using hlookup
            refine ⟨by simp, ?_⟩
            rw [hn, hnumbering.number, hnext, number, UInt64.ofNat_add]
            rfl
        · obtain ⟨hmem, hn⟩ := hwaiting n message' tx hlookup
          exact ⟨by simp [hmem], hn⟩
      · obtain ⟨⟨message', hmem⟩, hack⟩ := hanswered tx (by simpa using htx)
        exact ⟨⟨message', by simp [hmem]⟩, by simpa using hack⟩
  | @tookAck n message tx rest hphase hsubscriber hheld =>
      obtain ⟨hmem, hn⟩ := hwaiting n message tx hheld
      refine ⟨fun n' message' tx' hlookup => ?_, fun tx' htx' => ?_⟩
      · rw [HashMap.lookup_erase_eq_ite] at hlookup
        split at hlookup
        · cases hlookup
        · simpa using hwaiting n' message' tx' hlookup
      · rw [answered_snoc] at htx'
        rcases List.mem_append.mp htx' with hold | hlast
        · obtain ⟨hmem', hack⟩ := hanswered tx' hold
          exact ⟨by simpa using hmem', by simp [hack]⟩
        · obtain rfl : tx' = tx := by simpa [answer?] using hlast
          exact ⟨⟨message, by simpa using hmem⟩, by simp [hn]⟩
  | passedUp _ =>
      exact ⟨by simpa using hwaiting, by simpa [answer?, List.filterMap_cons] using hanswered⟩
  | _ =>
      refine ⟨by simpa using hwaiting, fun tx htx => ?_⟩
      obtain ⟨hmem, hack⟩ := hanswered tx (by simpa using htx)
      exact ⟨by simpa using hmem, by simp [hack]⟩

/-! ## Replies of the connection -/

/-- What a command does to the replies. -/
theorem settle_command {t t' : ConnectionTask N} {e' : Event B} {data : ReliableNetworkMessage}
    {tx : Oneshot} {written : Bool} (hst : ConnectionTask.Stepped flexbuffers t e' t')
    (hinput : e'.input = .command (.send data tx) written) (replies : Oneshot → Option Bool) :
    (t'.phase.Live ∧ e'.effects.foldl settle replies = Function.update replies tx (some true)) ∨
      ¬t'.phase.Live ∧ e'.effects.foldl settle replies = Function.update replies tx (some false) := by
  cases hst with
  | wrote _ hinput' _ _ heff ht' =>
      rw [hinput] at hinput'
      cases hinput'
      exact Or.inl ⟨by simp [ht'], by simp [heff, settle]⟩
  | writeFailed _ hinput' _ _ heff ht' =>
      rw [hinput] at hinput'
      cases hinput'
      exact Or.inr ⟨by simp [ht'], by simp [heff, settle]⟩
  | unwritten _ hinput' heff hdead =>
      rw [hinput] at hinput'
      cases hinput'
      exact Or.inr ⟨hdead, by simp [heff, settle]⟩
  | read _ hinput' | undecodable _ hinput' | unreadable _ hinput' | ended _ hinput'
  | forwarded _ hinput' | unsubscribed _ hinput' =>
      rw [hinput] at hinput'
      cases hinput'

/-- What comes from the peer answers nobody. -/
theorem settle_item {t t' : ConnectionTask N} {e' : Event B} {item : Option (Item B)}
    (hst : ConnectionTask.Stepped flexbuffers t e' t') (hinput : e'.input = .next item)
    (replies : Oneshot → Option Bool) : e'.effects.foldl settle replies = replies := by
  cases hst with
  | read _ _ _ _ heff _ => simp [heff, settle]
  | undecodable _ _ _ _ heff _ => simp [heff, settle]
  | unreadable _ _ _ heff _ => simp [heff, settle]
  | ended _ _ _ heff _ => simp [heff]
  | wrote _ hinput' | writeFailed _ hinput' | unwritten _ hinput'
  | forwarded _ hinput' | unsubscribed _ hinput' =>
      rw [hinput] at hinput'
      cases hinput'

/-- A task that has ended refuses the commands it has not taken, and answers no one else. -/
theorem dropCommands_replies (s : Stack N) (tx : Oneshot) :
    s.dropCommands.replies tx = s.replies tx ∨
      s.dropCommands.replies tx = some false ∧ ¬s.conn.phase.Live ∧
        ∃ command ∈ s.commands, command.respondTo = tx := by
  -- over the commands, the first of which is refused first
  have hfold : ∀ (commands : List ConnectionMessage) (replies : Oneshot → Option Bool),
      commands.foldl (fun replies command => match command with
        | .send _ tx => Function.update replies tx (some false)) replies tx = replies tx ∨
      commands.foldl (fun replies command => match command with
        | .send _ tx => Function.update replies tx (some false)) replies tx = some false ∧
        ∃ command ∈ commands, command.respondTo = tx := by
    intro commands
    induction commands with
    | nil => exact fun _ => Or.inl rfl
    | cons command rest ih =>
        intro replies
        obtain ⟨data, tx'⟩ := command
        rcases ih (Function.update replies tx' (some false)) with hsame | ⟨hfalse, command, hmem, htx⟩
        · by_cases htx : tx = tx'
          · subst htx
            exact Or.inr ⟨by simpa using hsame, _, List.mem_cons_self, rfl⟩
          · exact Or.inl (by simpa [htx] using hsame)
        · exact Or.inr ⟨hfalse, command, List.mem_cons_of_mem _ hmem, htx⟩
  cases hphase : s.conn.phase with
  | selecting => exact Or.inl (by simp [dropCommands, hphase])
  | forwarding message => exact Or.inl (by simp [dropCommands, hphase])
  | returned => simpa [dropCommands, hphase] using hfold s.commands s.replies
  | panicked => simpa [dropCommands, hphase] using hfold s.commands s.replies

/-- A reply comes to a call that was made, and a call is refused only by a task that has ended. -/
structure Replies (s : Stack N) : Prop where
  fresh : ∀ tx, s.opened ≤ tx → s.replies tx = none
  queued : ∀ command ∈ s.commands, command.respondTo < s.opened
  dead : ∀ tx, s.replies tx = some false → ¬s.conn.phase.Live

theorem replies_dropCommands (h : Replies s) : Replies s.dropCommands := by
  by_cases hlive : s.conn.phase.Live
  · rwa [dropCommands_of_live hlive]
  · refine ⟨fun tx htx => ?_, by simp [dropCommands_commands hlive], fun _ _ => by simpa using hlive⟩
    rw [dropCommands_opened] at htx
    rcases dropCommands_replies s tx with hsame | ⟨-, -, command, hmem, rfl⟩
    · rw [hsame]
      exact h.fresh tx htx
    · exact absurd (h.queued command hmem) (Nat.not_lt.mpr htx)

theorem replies_passed (h : Replies s) (hst : Passed flexbuffers s e s') : Replies s' := by
  obtain ⟨hfresh, hqueued, hdead⟩ := h
  cases hst with
  | @command data tx rest written e' t' hcommands hst hinput =>
      have hlive := live_of_stepped hst
      have hopened : tx < s.opened := hqueued (.send data tx) (by simp [hcommands])
      apply replies_dropCommands
      refine ⟨fun tx' htx' => ?_, fun command hmem => hqueued command (by simp [hcommands, hmem]), ?_⟩
      · have hne : tx' ≠ tx := Nat.ne_of_gt (Nat.lt_of_lt_of_le hopened htx')
        rcases settle_command hst hinput s.replies with ⟨-, hreplies⟩ | ⟨-, hreplies⟩ <;>
          simpa [hreplies, hne] using hfresh tx' htx'
      · intro tx' hfalse
        rcases settle_command hst hinput s.replies with ⟨-, hreplies⟩ | ⟨hended, -⟩
        · simp only [hreplies, Function.update_apply] at hfalse
          split at hfalse
          · cases hfalse
          · exact absurd hlive (hdead tx' hfalse)
        · exact hended
  | item hst hinput =>
      apply replies_dropCommands
      rw [settle_item hst hinput]
      exact ⟨hfresh, hqueued, fun tx hfalse => absurd (live_of_stepped hst) (hdead tx hfalse)⟩
  | forwarded hphase =>
      exact ⟨hfresh, hqueued, fun tx hfalse => absurd (by simp [hphase]) (hdead tx hfalse)⟩
  | unsubscribed hphase => exact replies_dropCommands ⟨hfresh, hqueued, by simp⟩
  | queued hphase hlive =>
      refine ⟨fun tx htx => hfresh tx (Nat.le_of_succ_le htx), fun command hmem => ?_, hdead⟩
      rcases List.mem_append.mp hmem with hold | hlast
      · exact Nat.lt_succ_of_lt (hqueued command hold)
      · rw [List.mem_singleton.mp hlast]
        exact Nat.lt_succ_self _
  | refused hphase hended =>
      refine ⟨fun tx htx => ?_, fun command hmem => Nat.lt_succ_of_lt (hqueued command hmem),
        fun _ _ => hended⟩
      have hne : tx ≠ s.opened := Nat.ne_of_gt htx
      simpa [hne] using hfresh tx (Nat.le_of_succ_le htx)
  | _ => exact ⟨hfresh, hqueued, hdead⟩

/-! ## Up to the event loop -/

/-- The received message that is acknowledged and not yet passed up. -/
def pending : SenderPhase → List Message
  | .posting _ (.passUp message) => [message]
  | .awaiting _ (.passUp message) => [message]
  | .passingUp message => [message]
  | _ => []

/-- The reliable sender will pass the message up: its acknowledgement has been written. -/
def Acknowledged (s : Stack N) (message : Message) : Prop :=
  s.phase = .passingUp message ∨ ∃ tx, s.phase = .awaiting tx (.passUp message) ∧ s.replies tx = some true

/-- What is passed up are the messages taken in, in order; while the connection actor runs none is
left out. -/
structure Upward (tr : List (SideEvent B)) (s : Stack N) : Prop where
  inOrder : offered tr <+: (processed tr).map Prod.fst
  acknowledged : ∀ message, s.Acknowledged message →
    offered tr ++ [message] <+: (processed tr).map Prod.fst
  whole : s.conn.phase.Live → offered tr ++ pending s.phase = (processed tr).map Prod.fst

omit [NoiseIo N B] in
/-- A step of the connection actor changes nothing: before it, while the actor ran, nothing was left
out. -/
theorem upward_connection {tr' : List (SideEvent B)} (h : Upward tr s) (hlive : s.conn.phase.Live)
    (hoffered : offered tr' = offered tr) (hprocessed : processed tr' = processed tr)
    (hphase : s'.phase = s.phase) : Upward tr' s' := by
  have hwhole := h.whole hlive
  rw [← hoffered, ← hprocessed, ← hphase] at hwhole
  refine ⟨?_, fun message hack => ?_, fun _ => hwhole⟩
  · rw [← hwhole]
    exact List.prefix_append _ _
  · have hpending : pending s'.phase = [message] := by
      rcases hack with hpassing | ⟨tx, hawaiting, -⟩
      · rw [hpassing]
        rfl
      · rw [hawaiting]
        rfl
    exact ⟨[], by rw [List.append_nil, ← hpending, hwhole]⟩

omit [NoiseIo N B] in
/-- A step after which no message is acknowledged and waiting. -/
theorem upward_settled {tr' : List (SideEvent B)} (hinOrder : offered tr' <+: (processed tr').map Prod.fst)
    (hnone : ∀ message, ¬s'.Acknowledged message)
    (hwhole : s'.conn.phase.Live → offered tr' ++ pending s'.phase = (processed tr').map Prod.fst) :
    Upward tr' s' :=
  ⟨hinOrder, fun message hack => absurd hack (hnone message), hwhole⟩

theorem upward_passed (h : Upward tr s) (hreplies : Replies s) (hst : Passed flexbuffers s e s') :
    Upward (tr ++ [e]) s' := by
  cases hst with
  | command _ hst _ =>
      exact upward_connection h (live_of_stepped hst) (by simp) (by simp) (by simp)
  | item hst _ =>
      exact upward_connection h (live_of_stepped hst) (by simp) (by simp) (by simp)
  | forwarded hphase =>
      exact upward_connection h (by simp [hphase]) (by simp) (by simp) rfl
  | unsubscribed hphase =>
      exact upward_connection h (by simp [hphase]) (by simp) (by simp) (by simp)
  | started hphase _ =>
      refine upward_settled (by simpa using h.inOrder) (by simp [Acknowledged]) fun hlive => ?_
      simpa [hphase, pending] using h.whole hlive
  | tookData hphase _ =>
      refine upward_settled ?_ (by simp [Acknowledged]) fun hlive => ?_
      · simpa using h.inOrder.trans (List.prefix_append _ _)
      · have hwhole := h.whole hlive
        simpa [hphase, pending] using hwhole
  | tookAck hphase _ _ =>
      refine upward_settled ?_ (by simp [Acknowledged, hphase]) fun hlive => ?_
      · simpa [offer?, List.filterMap_cons] using h.inOrder
      · simpa [offer?, List.filterMap_cons] using h.whole hlive
  | tookStray hphase _ =>
      refine upward_settled (by simpa using h.inOrder) (by simp [Acknowledged, hphase]) fun hlive => ?_
      simpa using h.whole hlive
  | @queued frame andThen hphase hlive =>
      -- the call has just been made, and has no reply
      have hfresh := hreplies.fresh s.opened (Nat.le_refl _)
      refine upward_settled (by simpa using h.inOrder) (by simp [Acknowledged, hfresh]) fun _ => ?_
      have hwhole := h.whole hlive
      rw [hphase] at hwhole
      cases andThen <;> simpa [pending] using hwhole
  | refused hphase hdead =>
      exact upward_settled (by simpa using h.inOrder) (by simp [Acknowledged])
        fun hlive => absurd hlive hdead
  | @resumed tx andThen ok hphase hreply =>
      cases andThen with
      | loop =>
          refine upward_settled (by simpa using h.inOrder) (by simp [Acknowledged, resumed])
            fun hlive => ?_
          simpa [hphase, pending, resumed] using h.whole hlive
      | passUp message =>
          cases ok with
          | true =>
              have hack := h.acknowledged message (Or.inr ⟨tx, hphase, hreply⟩)
              refine ⟨by simpa using h.inOrder, fun message' hack' => ?_, fun hlive => ?_⟩
              · obtain rfl : message = message' := by simpa [Acknowledged, resumed] using hack'
                simpa using hack
              · simpa [hphase, pending, resumed] using h.whole hlive
          | false =>
              exact upward_settled (by simpa using h.inOrder) (by simp [Acknowledged, resumed])
                fun hlive => absurd hlive (hreplies.dead tx hreply)
  | @passedUp message hphase =>
      have hack := h.acknowledged message (Or.inl hphase)
      refine upward_settled (by simpa [offer?] using hack) (by simp [Acknowledged]) fun hlive => ?_
      simpa [hphase, pending, offer?] using h.whole hlive
  | submitted | consumed _ | closedClient | around _ =>
      exact ⟨by simpa using h.inOrder, by simpa [Acknowledged] using h.acknowledged,
        by simpa using h.whole⟩

/-- The client channel accepts what it is offered until the event loop is gone. -/
structure Accepted (tr : List (SideEvent B)) (s : Stack N) : Prop where
  inOrder : delivered tr <+: offered tr
  whole : s.clientOpen = true → delivered tr = offered tr

theorem accepted_passed (h : Accepted tr s) (hst : Passed flexbuffers s e s') :
    Accepted (tr ++ [e]) s' := by
  obtain ⟨hinOrder, hwhole⟩ := h
  cases hst with
  | passedUp hphase =>
      cases hopen : s.clientOpen with
      | true =>
          have hall := hwhole hopen
          exact ⟨by simp [offer?, accepted?, hall], by simp [offer?, accepted?, hall]⟩
      | false =>
          refine ⟨?_, by simp⟩
          simpa [offer?, accepted?, List.filterMap_cons] using hinOrder.trans (List.prefix_append _ _)
  | closedClient => exact ⟨by simpa using hinOrder, by simp⟩
  | tookAck _ _ _ =>
      exact ⟨by simpa [offer?, accepted?, List.filterMap_cons] using hinOrder,
        by simpa [offer?, accepted?, List.filterMap_cons] using hwhole⟩
  | _ => exact ⟨by simpa using hinOrder, by simpa using hwhole⟩

/-- The event loop receives what its client channel accepts, in order, and while it listens the rest is
in the channel. -/
structure Received (tr : List (SideEvent B)) (s : Stack N) : Prop where
  inOrder : consumed tr ++ s.client <+: delivered tr
  whole : s.clientOpen = true → consumed tr ++ s.client = delivered tr

theorem received_passed (h : Received tr s) (hst : Passed flexbuffers s e s') :
    Received (tr ++ [e]) s' := by
  obtain ⟨hinOrder, hwhole⟩ := h
  cases hst with
  | passedUp hphase =>
      cases hopen : s.clientOpen with
      | true =>
          have hall := hwhole hopen
          exact ⟨by simp [accepted?, ← hall], by simp [accepted?, ← hall]⟩
      | false => exact ⟨by simpa [accepted?, List.filterMap_cons] using hinOrder, by simp⟩
  | consumed hclient =>
      rw [hclient] at hinOrder hwhole
      exact ⟨by simpa using hinOrder, by simpa using hwhole⟩
  | closedClient =>
      refine ⟨?_, by simp⟩
      simpa using (List.prefix_append _ _).trans hinOrder
  | tookAck _ _ _ =>
      exact ⟨by simpa [accepted?, List.filterMap_cons] using hinOrder,
        by simpa [accepted?, List.filterMap_cons] using hwhole⟩
  | _ => exact ⟨by simpa using hinOrder, by simpa using hwhole⟩

/-! ## The books of a side -/

structure Books (tr : List (SideEvent B)) (s : Stack N) : Prop where
  requests : Requests tr s
  numbering : Numbering tr s
  commands : Commands tr s
  subscriber : took tr ++ s.subscriber = (connections tr).flatMap Event.delivered
  waiters : Waiters tr s
  replies : Replies s
  upward : Upward tr s
  accepted : Accepted tr s
  received : Received tr s

/-- **The books of a side are in order in every run.** -/
theorem books_of_run {noise : N} (hrun : (traced flexbuffers).Run (start noise) tr s) : Books tr s := by
  refine hrun.invariant (I := fun tr s => Books tr s) ?_ ?_
  · refine ⟨⟨rfl, rfl⟩, ⟨rfl, rfl, rfl⟩, ⟨List.prefix_rfl, fun _ => rfl⟩, rfl, ⟨?_, by simp [answered]⟩,
      ⟨fun _ _ => rfl, by simp [start], by simp [start]⟩,
      ⟨List.prefix_rfl, by simp [Acknowledged, start], fun _ => rfl⟩, ⟨List.prefix_rfl, fun _ => rfl⟩,
      ⟨List.prefix_rfl, fun _ => rfl⟩⟩
    simp [start, ReliableSenderActor.new]
  · intro tr s i s' e _ h hs _
    have hst := passed_of_step hs
    exact ⟨requests_passed h.requests hst, numbering_passed h.numbering h.requests hst,
      commands_passed h.commands hst, subscriber_passed h.subscriber hst,
      waiters_passed h.waiters h.requests h.numbering hst, replies_passed h.replies hst,
      upward_passed h.upward h.replies hst, accepted_passed h.accepted hst,
      received_passed h.received hst⟩

end Stack

end FrostFederation.Connection
