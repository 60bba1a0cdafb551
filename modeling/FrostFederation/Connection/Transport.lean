/-
# FrostFederation.Connection.Transport — two sides and the stream between them are a pipe.

Both sides of a connection, each a connection actor under a reliable sender, on the encrypted stream
of `Channel`: it delivers whole frames in order, may break at any point, and a write may fail with its
frame on the wire or off it.  Every step of every task at either side is a step of the TRANSPORT, so a
run is any interleaving of the four tasks, the clients, the event loops and the network.

A run of the transport is a run of each side and of the channel between them (`side_of_run`,
`channel_of_run`), so the books of the sides and the order of the channel compose: in each direction
the messages that the clients submit at one side and the event loop receives at the other are the puts
and takes of a FIFO pipe.  An acknowledged message has reached the reliable sender of the peer, and
its event loop as well, unless the connection of the peer has ended or its event loop is gone.
-/
import FrostFederation.Connection.Side
import FrostFederation.Lib.Pipe
import Mathlib.Algebra.Group.Nat.Defs

namespace FrostFederation.Connection

open FrostFederation.Lib
open FrostFederation.Lib.Noise
open FrostFederation.Lib.Serde (Format)
open FrostFederation.Protocol
open FrostFederation.ReliableSender (ReliableNetworkMessage)

variable {B : Type} {snow : Snow B}

/-! ## Both sides -/

/-- The side of each role, and the link TO each role. -/
structure Transport (snow : Snow B) where
  side : Bool → Stack (NoiseHandler snow)
  link : Bool → Link B

inductive TransportInput (B : Type) where
  /-- A step of one side that reads nothing from the stream; `reached` says whether the frame of a
  write that fails gets onto it. -/
  | own (role : Bool) (input : StackInput B) (reached : Bool)
  | receive (role : Bool)
  /-- The reader yields its end, or an error. -/
  | finish (role : Bool) (error : Bool)
  | cut (role : Bool) (kept : Nat)

inductive TransportEvent (B : Type) where
  | own (role : Bool) (e : SideEvent B)
  | broke (role : Bool) (kept : Nat)

/-- The frames that get onto the stream in a step. -/
def SideEvent.written (e : SideEvent B) (reached : Bool) : List B :=
  match e.connection with
  | some e' => e'.written reached
  | none => []

/-- The message that the client channel accepts in a step. -/
def SideEvent.accepted? (e : SideEvent B) : Option Message := e.effects.findSome? Stack.accepted?

/-- The message that the event loop receives in a step. -/
def SideEvent.consumed? (e : SideEvent B) : Option Message := e.passage.bind Passage.consumed?

def StackInput.readsStream : StackInput B → Bool
  | .takeItem _ => true
  | _ => false

namespace Transport

/-- Both ends have just finished their handshake, and their reliable senders have been started. -/
def start (secret : snow.Secret) : Transport snow where
  side role := Stack.start (.transporting role secret 0 0)
  link _ := ⟨[], false⟩

/-- One side has gone on to `s` and has written `frames`; `inbox` is what is left on its own link. -/
def moved (t : Transport snow) (role : Bool) (s : Stack (NoiseHandler snow)) (inbox : Link B)
    (frames : List B) : Transport snow where
  side := Function.update t.side role s
  link side := if side = role then inbox else (t.link side).push frames

section Step

variable (flexbuffers : Format B)

/-- One side takes a step. -/
def advance (t : Transport snow) (role : Bool) (i : StackInput B) (inbox : Link B) (reached : Bool) :
    Option (Transport snow × TransportEvent B) :=
  ((Stack.traced flexbuffers).step (t.side role) i).map fun r =>
    (t.moved role r.1 inbox (r.2.written reached), .own role r.2)

def step (t : Transport snow) : TransportInput B → Option (Transport snow × TransportEvent B)
  | .own role input reached =>
      if input.readsStream then none else t.advance flexbuffers role input (t.link role) reached
  | .receive role =>
      match (t.link role).frames with
      | [] => none
      | frame :: rest =>
          t.advance flexbuffers role (.takeItem (some (.frame frame)))
            { t.link role with frames := rest } false
  | .finish role error =>
      t.advance flexbuffers role (.takeItem (if error then some .error else none)) (t.link role) false
  | .cut role kept =>
      some ({ t with link := Function.update t.link role ⟨(t.link role).frames.take kept, true⟩ },
        .broke role kept)

def machine : Machine (Transport snow) (TransportInput B) (TransportEvent B) := ⟨step flexbuffers⟩

end Step

end Transport

/-! ## Parts of a run -/

/-- The event at one side. -/
def TransportEvent.at? (role : Bool) : TransportEvent B → Option (SideEvent B)
  | .own side e => if side = role then some e else none
  | .broke _ _ => none

/-- The event of the channel. -/
def TransportEvent.channel? : TransportEvent B → Option (ChannelEvent B)
  | .own role e => e.connection.map (.own role)
  | .broke role kept => some (.broke role kept)

namespace Transport

/-- The connection actors and the stream. -/
def channel (t : Transport snow) : Channel snow := ⟨fun role => (t.side role).conn, t.link⟩

def sideTrace (role : Bool) (tr : List (TransportEvent B)) : List (SideEvent B) :=
  tr.filterMap (TransportEvent.at? role)

def channelTrace (tr : List (TransportEvent B)) : List (ChannelEvent B) :=
  tr.filterMap TransportEvent.channel?

/-- What a step reads from the link of its side. -/
inductive Inbox (link : Link B) : StackInput B → Link B → Prop
  | kept {i : StackInput B} (hreads : i.readsStream = false) : Inbox link i link
  | ended (error : Bool) : Inbox link (.takeItem (if error then some .error else none)) link
  | read {frame : B} {rest : List B} (hframes : link.frames = frame :: rest) :
      Inbox link (.takeItem (some (.frame frame))) { link with frames := rest }

variable {flexbuffers : Format B} {t t' : Transport snow} {te : TransportEvent B}

/-- A step is a step of one side, or a break of the stream. -/
theorem step_cases {i : TransportInput B}
    (hs : (machine flexbuffers).step t i = some (t', te)) :
    (∃ role i' inbox reached s' e,
      (Stack.traced flexbuffers).step (t.side role) i' = some (s', e) ∧
      Inbox (t.link role) i' inbox ∧ te = .own role e ∧
      t' = t.moved role s' inbox (e.written reached)) ∨
    ∃ role kept, te = .broke role kept ∧
      t' = { t with link := Function.update t.link role ⟨(t.link role).frames.take kept, true⟩ } := by
  cases i with
  | own role input reached =>
      simp only [machine, step] at hs
      split at hs
      · cases hs
      · next hreads =>
          obtain ⟨⟨s', e⟩, hstep, heq⟩ := Option.map_eq_some_iff.mp hs
          cases heq
          exact Or.inl ⟨role, input, _, reached, s', e, hstep, .kept (by simpa using hreads), rfl, rfl⟩
  | receive role =>
      simp only [machine, step] at hs
      split at hs
      · cases hs
      · next frame rest hframes =>
          obtain ⟨⟨s', e⟩, hstep, heq⟩ := Option.map_eq_some_iff.mp hs
          cases heq
          exact Or.inl ⟨role, _, _, false, s', e, hstep, .read hframes, rfl, rfl⟩
  | finish role error =>
      obtain ⟨⟨s', e⟩, hstep, heq⟩ := Option.map_eq_some_iff.mp hs
      cases heq
      exact Or.inl ⟨role, _, _, false, s', e, hstep, .ended error, rfl, rfl⟩
  | cut role kept =>
      cases hs
      exact Or.inr ⟨role, kept, rfl, rfl⟩

/-- **A run of the transport is a run of each of its sides.** -/
theorem side_of_run {secret : snow.Secret} {tr : List (TransportEvent B)}
    (hrun : (machine flexbuffers).Run (start secret) tr t) (role : Bool) :
    (Stack.traced flexbuffers).Run (Stack.start (.transporting role secret 0 0)) (sideTrace role tr)
      (t.side role) := by
  refine hrun.project (fun t => t.side role) (TransportEvent.at? role) ?_
  intro t i t' te hs
  obtain ⟨r, i', inbox, reached, s', e, hstep, -, rfl, rfl⟩ | ⟨r, kept, rfl, rfl⟩ := step_cases hs
  · by_cases hr : r = role
    · subst hr
      exact Or.inr ⟨i', e, by simp [TransportEvent.at?], by simpa [moved] using hstep⟩
    · exact Or.inl ⟨by simp [TransportEvent.at?, hr], by simp [moved, Ne.symm hr]⟩
  · exact Or.inl ⟨rfl, rfl⟩

/-! ## The channel between the sides -/

/-- The event of a step of a side shows its input. -/
theorem input_of_traced {N : Type} [NoiseIo N B] {s s' : Stack N} {i : StackInput B} {e : SideEvent B}
    (hs : (Stack.traced flexbuffers).step s i = some (s', e)) : e.input = i := by
  obtain ⟨⟨s₁, e₁⟩, hstep, heq⟩ := Option.map_eq_some_iff.mp hs
  cases heq
  exact (Stack.stepped_of_step hstep).2

section ChannelStep

variable {role : Bool} {s' : Stack (NoiseHandler snow)} {inbox : Link B} {reached : Bool}
  {e : SideEvent B}

/-- A step of a side in which its connection actor does nothing. -/
theorem channel_moved_of_none (hconn : s'.conn = (t.side role).conn) (hnone : e.connection = none)
    (hinbox : inbox = t.link role) :
    (TransportEvent.own role e).channel? = none ∧
      (t.moved role s' inbox (e.written reached)).channel = t.channel := by
  refine ⟨by simp [TransportEvent.channel?, hnone], ?_⟩
  have htask : (fun r => ((t.moved role s' inbox (e.written reached)).side r).conn) =
      fun r => (t.side r).conn := by
    funext r
    by_cases hr : r = role
    · subst hr
      simpa [moved] using hconn
    · simp [moved, hr]
  have hlink : (t.moved role s' inbox (e.written reached)).link = t.link := by
    funext r
    by_cases hr : r = role
    · simp [moved, hr, hinbox]
    · simp [moved, hr, SideEvent.written, hnone]
  rw [channel, channel, htask, hlink]

/-- A step of a side in which its connection actor takes a step. -/
theorem channel_moved_of_some {e' : Event B} (hconn : e.connection = some e')
    (hst : ConnectionTask.Stepped flexbuffers (t.side role).conn e' s'.conn)
    (hread : ∀ frame, e'.input = .next (some (.frame frame)) →
      (t.link role).frames = frame :: inbox.frames)
    (hkept : (∀ frame, e'.input ≠ .next (some (.frame frame))) → inbox = t.link role)
    (hbroken : inbox.broken = (t.link role).broken) :
    ∃ ce, (TransportEvent.own role e).channel? = some ce ∧ Channel.Stepped flexbuffers t.channel ce
      (t.moved role s' inbox (e.written reached)).channel := by
  refine ⟨.own role e', by simp [TransportEvent.channel?, hconn], .own reached rfl ?_ ?_ ?_ ?_ ?_ ?_⟩
  · simpa [channel, moved] using hst
  · simp [channel, moved]
  · simpa [channel, moved] using hread
  · simpa [channel, moved] using hkept
  · simpa [channel, moved] using hbroken
  · simp [channel, moved, SideEvent.written, hconn]

end ChannelStep

/-- **A step of the transport is a step of its channel, or leaves it alone.** -/
theorem channel_step {i : TransportInput B} (hs : (machine flexbuffers).step t i = some (t', te)) :
    (te.channel? = none ∧ t'.channel = t.channel) ∨
      ∃ ce, te.channel? = some ce ∧ Channel.Stepped flexbuffers t.channel ce t'.channel := by
  obtain ⟨role, i', inbox, reached, s', e, hstep, hinbox, rfl, rfl⟩ | ⟨role, kept, rfl, rfl⟩ :=
    step_cases hs
  · have hinput := input_of_traced hstep
    -- a step that is not about an item of the stream reads nothing
    have hkept : (∀ item, e.input ≠ .takeItem item) → inbox = t.link role := by
      intro hnot
      cases hinbox with
      | kept _ => rfl
      | ended error => rfl
      | read _ => exact absurd hinput (hnot _)
    cases Stack.passed_of_step hstep with
    | command _ hst hcommand =>
        have hlink := hkept (by simp)
        exact Or.inr (channel_moved_of_some rfl (by simpa using hst) (by simp [hcommand])
          (fun _ => hlink) (by rw [hlink]))
    | @item item e' t' hst hnext =>
        right
        cases hinbox with
        | kept hreads =>
            rw [← hinput] at hreads
            cases hreads
        | ended error =>
            refine channel_moved_of_some rfl (by simpa using hst) ?_ (fun _ => rfl) rfl
            obtain rfl : item = if error then some .error else none := by simpa using hinput
            cases error <;> simp [hnext]
        | @read frame rest hframes =>
            obtain rfl : item = some (.frame frame) := by simpa using hinput
            refine channel_moved_of_some rfl (by simpa using hst) ?_ ?_ rfl
            · intro frame' hframe
              rw [hnext] at hframe
              cases hframe
              exact hframes
            · intro hnone
              exact absurd hnext (hnone frame)
    | forwarded hphase =>
        have hlink := hkept (by simp)
        exact Or.inr (channel_moved_of_some rfl (.forwarded hphase rfl rfl rfl) (by simp)
          (fun _ => hlink) (by rw [hlink]))
    | unsubscribed hphase =>
        have hlink := hkept (by simp)
        exact Or.inr (channel_moved_of_some rfl (by simpa using .unsubscribed hphase rfl rfl rfl)
          (by simp) (fun _ => hlink) (by rw [hlink]))
    | around hnot => exact Or.inl (channel_moved_of_none rfl rfl (hkept hnot))
    | _ => exact Or.inl (channel_moved_of_none rfl rfl (hkept (by simp)))
  · refine Or.inr ⟨.broke role kept, rfl, .cut rfl rfl ?_ ?_⟩
    · simp [channel]
    · simp [channel]

/-! ## Histories of both sides -/

section Histories

variable (role : Bool) (tr : List (TransportEvent B))

/-- What the clients of a side submit. -/
def submitted : List Message := Stack.submitted (sideTrace role tr)

/-- What the client channel of a side accepts. -/
def delivered : List Message := Stack.delivered (sideTrace role tr)

/-- What the event loop of a side receives from its client channel. -/
def consumed : List Message := Stack.consumed (sideTrace role tr)

/-- The clients of a side that are told that their message was acknowledged. -/
def answered : List Oneshot := Stack.answered (sideTrace role tr)

/-- The data frames the reliable sender of a side takes in. -/
def processed : List (Message × UInt64) := Stack.processed (sideTrace role tr)

theorem submitted_append (tr₂ : List (TransportEvent B)) :
    submitted role (tr ++ tr₂) = submitted role tr ++ submitted role tr₂ := by
  simp [submitted, sideTrace, Stack.submitted]

/-- The channel sees the steps of the connection actors. -/
theorem connections_sideTrace :
    (channelTrace tr).filterMap (ChannelEvent.at? role) = Stack.connections (sideTrace role tr) := by
  rw [Stack.connections, channelTrace, sideTrace, List.filterMap_filterMap, List.filterMap_filterMap]
  refine congrArg (List.filterMap · tr) (funext fun te => ?_)
  cases te with
  | broke r kept => rfl
  | own r e =>
      cases hconn : e.connection <;> by_cases hr : r = role <;>
        simp [TransportEvent.channel?, TransportEvent.at?, ChannelEvent.at?, hconn, hr]

theorem taken_channelTrace :
    Channel.taken role (channelTrace tr) = Stack.commanded (sideTrace role tr) := by
  rw [Channel.taken, connections_sideTrace, Stack.commanded]

theorem received_channelTrace :
    Channel.received role (channelTrace tr) =
      (Stack.connections (sideTrace role tr)).flatMap Event.delivered := by
  rw [Channel.received, connections_sideTrace]

end Histories

/-! ## In order, and each once -/

section EndToEnd

variable {secret : snow.Secret} {tr : List (TransportEvent B)}

theorem books_of_run (hrun : (machine flexbuffers).Run (start secret) tr t) (role : Bool) :
    Stack.Books (sideTrace role tr) (t.side role) :=
  Stack.books_of_run (side_of_run hrun role)

/-- What is started was submitted, in that order. -/
theorem started_inOrder (hrun : (machine flexbuffers).Run (start secret) tr t) (role : Bool) :
    (Stack.started (sideTrace role tr)).map Prod.fst <+: submitted role tr := by
  have hrequests := (books_of_run hrun role).requests.inOrder
  have hall := congrArg (List.map Prod.fst) hrequests
  rw [List.map_append, List.zipIdx_map_fst] at hall
  exact ⟨_, hall⟩

/-- The frames a side posts can be sent if the messages its clients submit can. -/
theorem sinceEpoch_of_posted (hrun : (machine flexbuffers).Run (start secret) tr t) {role : Bool}
    (hepoch : ∀ message ∈ submitted role tr, message.SinceEpoch) {frame : ReliableNetworkMessage}
    (hframe : frame ∈ Stack.posted (sideTrace role tr)) : frame.SinceEpoch := by
  cases frame with
  | ack n => trivial
  | send message n =>
      have hdata : (message, n) ∈ (Stack.started (sideTrace role tr)).map Stack.numbered := by
        rw [← (books_of_run hrun role).numbering.data]
        exact List.mem_filterMap.mpr ⟨_, List.mem_append_left _ hframe, rfl⟩
      obtain ⟨request, hrequest, hnumbered⟩ := List.mem_map.mp hdata
      apply hepoch
      apply (started_inOrder hrun role).subset
      exact List.mem_map.mpr ⟨request, hrequest, congrArg Prod.fst hnumbered⟩

/-- **The channel between the sides is in order.** -/
theorem channel_of_run (hrun : (machine flexbuffers).Run (start secret) tr t)
    (hepoch : ∀ role, ∀ message ∈ submitted role tr, message.SinceEpoch) :
    Channel.Invariant flexbuffers secret (channelTrace tr) t.channel := by
  -- every frame that is taken was posted, so it can be sent
  have hguard : ∀ te ∈ tr, ∀ ce, te.channel? = some ce → ce.SinceEpoch := by
    have hall : ∀ ce ∈ channelTrace tr, ce.SinceEpoch := by
      apply Channel.sinceEpoch_of_taken
      intro role data hdata
      rw [taken_channelTrace] at hdata
      apply sinceEpoch_of_posted hrun (hepoch role)
      exact (books_of_run hrun role).commands.inOrder.subset (List.mem_append_left _ hdata)
    exact fun te hte ce hce => hall ce (List.mem_filterMap.mpr ⟨te, hte, hce⟩)
  refine (Machine.RunWith.guarded hrun hguard).invariant
    (I := fun tr t => Channel.Invariant flexbuffers secret (channelTrace tr) t.channel) ?_ ?_
  · exact ⟨Channel.keyed_start, fun s r _ => Channel.flow_start s r, by simp [channelTrace]⟩
  · intro tr t i t' te _ hinv hs hG
    rcases channel_step hs with ⟨hnone, hsame⟩ | ⟨ce, hsome, hst⟩
    · simpa [channelTrace, hnone, hsame, List.filterMap_cons] using hinv
    · simpa [channelTrace, hsome] using Channel.invariant_step hinv hst (hG ce hsome)

/-- What the reliable sender of one side takes in is what the other posted, in that order. -/
theorem took_inOrder (hrun : (machine flexbuffers).Run (start secret) tr t)
    (hepoch : ∀ role, ∀ message ∈ submitted role tr, message.SinceEpoch) (role : Bool) :
    Stack.took (sideTrace role tr) <+: Stack.posted (sideTrace (!role) tr) := by
  have hchannel := ((channel_of_run hrun hepoch).flow _ role rfl).inOrder
  rw [received_channelTrace, taken_channelTrace, ← (books_of_run hrun role).subscriber] at hchannel
  have htook : Stack.took (sideTrace role tr) <+: Stack.commanded (sideTrace (!role) tr) :=
    (List.prefix_append _ _).trans hchannel
  have hposted : Stack.commanded (sideTrace (!role) tr) <+: Stack.posted (sideTrace (!role) tr) :=
    (List.prefix_append _ _).trans (books_of_run hrun (!role)).commands.inOrder
  exact htook.trans hposted

/-- The data one side takes in are the requests of the other, under their numbers. -/
theorem processed_inOrder (hrun : (machine flexbuffers).Run (start secret) tr t)
    (hepoch : ∀ role, ∀ message ∈ submitted role tr, message.SinceEpoch) (role : Bool) :
    processed role tr <+: (Stack.started (sideTrace (!role) tr)).map Stack.numbered := by
  rw [← (books_of_run hrun (!role)).numbering.data]
  exact ((took_inOrder hrun hepoch role).trans (List.prefix_append _ _)).filterMap _

/-- What a client channel accepts is a prefix of what the clients of the other side submitted. -/
theorem delivered_inOrder (hrun : (machine flexbuffers).Run (start secret) tr t)
    (hepoch : ∀ role, ∀ message ∈ submitted role tr, message.SinceEpoch) (role : Bool) :
    delivered role tr <+: submitted (!role) tr := by
  have hbooks := books_of_run hrun role
  have hup : delivered role tr <+: (processed role tr).map Prod.fst :=
    hbooks.accepted.inOrder.trans hbooks.upward.inOrder
  have hacross := (processed_inOrder hrun hepoch role).map Prod.fst
  rw [List.map_map] at hacross
  exact (hup.trans hacross).trans (started_inOrder hrun (!role))

/-- What an event loop receives is a prefix of what the clients of the other side submitted. -/
theorem consumed_inOrder (hrun : (machine flexbuffers).Run (start secret) tr t)
    (hepoch : ∀ role, ∀ message ∈ submitted role tr, message.SinceEpoch) (role : Bool) :
    consumed role tr <+: submitted (!role) tr := by
  have hreceived : consumed role tr <+: delivered role tr :=
    (List.prefix_append _ _).trans (books_of_run hrun role).received.inOrder
  exact hreceived.trans (delivered_inOrder hrun hepoch role)

/-! ## The pipe -/

/-- What a step puts into the pipe from `role` to the other side, or takes out of it: `out` says what
comes out of the other side in a step. -/
def carried (out : SideEvent B → Option Message) (role : Bool) :
    TransportEvent B → Option (Pipe.Event Message)
  | .own side e =>
      if side = role then (e.passage.bind Passage.submitted?).map .put else (out e).map .take
  | .broke _ _ => none

theorem puts_carried (out : SideEvent B → Option Message) (role : Bool)
    (tr : List (TransportEvent B)) :
    Pipe.puts (tr.filterMap (carried out role)) = submitted role tr := by
  rw [Pipe.puts, submitted, Stack.submitted, sideTrace, List.filterMap_filterMap,
    List.filterMap_filterMap]
  refine congrArg (List.filterMap · tr) (funext fun te => ?_)
  cases te with
  | broke r kept => rfl
  | own r e =>
      by_cases hr : r = role
      · cases hpassage : e.passage.bind Passage.submitted? <;>
          simp [carried, TransportEvent.at?, hr, hpassage, Pipe.Event.put?]
      · cases hout : out e <;>
          simp [carried, TransportEvent.at?, hr, hout, Pipe.Event.put?]

theorem takes_carried (out : SideEvent B → Option Message) (role : Bool)
    (tr : List (TransportEvent B)) :
    Pipe.takes (tr.filterMap (carried out role)) = (sideTrace (!role) tr).filterMap out := by
  rw [Pipe.takes, sideTrace, List.filterMap_filterMap, List.filterMap_filterMap]
  refine congrArg (List.filterMap · tr) (funext fun te => ?_)
  cases te with
  | broke r kept => rfl
  | own r e =>
      by_cases hr : r = role
      · cases hpassage : e.passage.bind Passage.submitted? <;>
          simp [carried, TransportEvent.at?, hr, hpassage, Pipe.Event.take?]
      · have hother : r = !role := Bool.eq_not.mpr hr
        cases hout : out e <;>
          simp [carried, TransportEvent.at?, hother, hout, Pipe.Event.take?]

/-- What comes out in order in every run comes out of a pipe. -/
theorem pipe_of_inOrder {out : SideEvent B → Option Message} {role : Bool}
    (hinOrder : ∀ {tr t}, (machine flexbuffers).Run (start secret) tr t →
      (∀ role, ∀ message ∈ submitted role tr, message.SinceEpoch) →
      (sideTrace (!role) tr).filterMap out <+: submitted role tr)
    (hrun : (machine flexbuffers).Run (start secret) tr t)
    (hepoch : ∀ role, ∀ message ∈ submitted role tr, message.SinceEpoch) :
    ∃ contents, (Pipe.machine Message).Run [] (tr.filterMap (carried out role)) contents := by
  have hall : ∀ pre, pre <+: tr.filterMap (carried out role) → Pipe.takes pre <+: Pipe.puts pre := by
    intro pre hpre
    obtain ⟨tr₁, ⟨tr₂, rfl⟩, rfl⟩ := List.prefix_filterMap_iff.mp hpre
    obtain ⟨t₁, hrun₁, -⟩ := hrun.split
    rw [takes_carried, puts_carried]
    refine hinOrder hrun₁ fun r message hmem => hepoch r message ?_
    rw [submitted_append]
    exact List.mem_append_left _ hmem
  obtain ⟨contents, hpipe, -⟩ := Pipe.run_of_inOrder hall
  exact ⟨contents, hpipe⟩

/-- A step passes at most one message up. -/
theorem accepted_of_run (hrun : (machine flexbuffers).Run (start secret) tr t) {role : Bool}
    {e : SideEvent B} (he : .own role e ∈ tr) :
    e.effects.filterMap Stack.accepted? = e.accepted?.toList := by
  obtain ⟨pre, post, rfl⟩ := List.append_of_mem he
  obtain ⟨t₁, i, t₂, -, hs, -, -⟩ := hrun.around
  obtain ⟨r, i', inbox, reached, s', e', hstep, -, heq, -⟩ | ⟨r, kept, heq, -⟩ := step_cases hs
  · cases heq
    cases Stack.passed_of_step hstep with
    | passedUp _ =>
        cases hopen : (t₁.side role).clientOpen <;>
          simp [SideEvent.accepted?, Stack.accepted?, List.filterMap_cons]
    | _ => simp [SideEvent.accepted?, Stack.accepted?, List.filterMap_cons]
  · cases heq

/-- If every step passes at most one message up, the history has one entry for each that does. -/
theorem delivered_eq_filterMap {l : List (SideEvent B)}
    (h : ∀ e ∈ l, e.effects.filterMap Stack.accepted? = e.accepted?.toList) :
    Stack.delivered l = l.filterMap SideEvent.accepted? := by
  induction l with
  | nil => rfl
  | cons e l ih =>
      have hcons : Stack.delivered (e :: l) = e.effects.filterMap Stack.accepted? ++ Stack.delivered l := by
        simp [Stack.delivered]
      rw [hcons, ih fun e' he' => h e' (List.mem_cons_of_mem _ he'), h e List.mem_cons_self]
      cases hhead : e.accepted? <;> simp [hhead]

theorem filterMap_accepted_of_run (hrun : (machine flexbuffers).Run (start secret) tr t) (role : Bool) :
    (sideTrace role tr).filterMap SideEvent.accepted? = delivered role tr := by
  refine (delivered_eq_filterMap fun e he => ?_).symm
  obtain ⟨te, hte, hat⟩ := List.mem_filterMap.mp he
  cases te with
  | broke r kept => cases hat
  | own r e' =>
      obtain ⟨rfl, rfl⟩ : r = role ∧ e' = e := by simpa [TransportEvent.at?] using hat
      exact accepted_of_run hrun hte

/-- **In each direction the transport is a FIFO pipe**: whatever the interleaving, and wherever the
stream breaks, the messages submitted at one side are the puts of a pipe, and its takes are the
messages that the client channel of the other side accepts, and so are those that the event loop there
receives.  The heartbeats submitted have to carry a time that can be encoded. -/
theorem pipe_of_run (hrun : (machine flexbuffers).Run (start secret) tr t)
    (hepoch : ∀ role, ∀ message ∈ submitted role tr, message.SinceEpoch) (role : Bool) :
    (∃ contents, (Pipe.machine Message).Run [] (tr.filterMap (carried SideEvent.accepted? role))
      contents) ∧
    ∃ contents, (Pipe.machine Message).Run [] (tr.filterMap (carried SideEvent.consumed? role))
      contents := by
  constructor
  · refine pipe_of_inOrder (fun hrun₁ hepoch₁ => ?_) hrun hepoch
    have hinOrder := delivered_inOrder hrun₁ hepoch₁ (!role)
    rwa [Bool.not_not, ← filterMap_accepted_of_run hrun₁] at hinOrder
  · refine pipe_of_inOrder (fun hrun₁ hepoch₁ => ?_) hrun hepoch
    have hinOrder := consumed_inOrder hrun₁ hepoch₁ (!role)
    rwa [Bool.not_not] at hinOrder

/-! ## Acknowledged messages -/

theorem getElem?_of_inOrder {α : Type} {l₁ l₂ : List α} (h : l₁ <+: l₂) {k : Nat} {a : α}
    (hk : l₁[k]? = some a) : l₂[k]? = some a := by
  obtain ⟨rest, rfl⟩ := h
  rw [List.getElem?_append_left (List.getElem?_eq_some_iff.mp hk).1]
  exact hk

/-- The numbers of fewer than `2 ^ 64` requests are different. -/
theorem number_inj {m n : Nat} (hm : m + 1 < 2 ^ 64) (hn : n + 1 < 2 ^ 64)
    (h : Stack.number m = Stack.number n) : m = n := by
  have hnat := congrArg UInt64.toNat h
  rw [Stack.number, Stack.number, UInt64.toNat_ofNat_of_lt' hm, UInt64.toNat_ofNat_of_lt' hn] at hnat
  omega

/-- A request that was started has the oneshot of its position. -/
theorem started_getElem? (hrun : (machine flexbuffers).Run (start secret) tr t) {role : Bool} {k : Nat}
    {request : Message × Oneshot} (hk : (Stack.started (sideTrace role tr))[k]? = some request) :
    request.2 = k ∧ (submitted role tr)[k]? = some request.1 := by
  have hinOrder := (books_of_run hrun role).requests.inOrder
  have hzip : (submitted role tr).zipIdx[k]? = some request := by
    have hlt : k < (Stack.started (sideTrace role tr)).length := (List.getElem?_eq_some_iff.mp hk).1
    rw [submitted, ← hinOrder, List.getElem?_append_left hlt]
    exact hk
  rw [List.getElem?_zipIdx] at hzip
  obtain ⟨message, hmessage, rfl⟩ := Option.map_eq_some_iff.mp hzip
  exact ⟨by simp, hmessage⟩

/-- An acknowledgement that comes back is that of a frame the peer took in. -/
theorem processed_of_ack (hrun : (machine flexbuffers).Run (start secret) tr t)
    (hepoch : ∀ role, ∀ message ∈ submitted role tr, message.SinceEpoch) {role : Bool} {n : UInt64}
    (hack : .ack n ∈ Stack.took (sideTrace role tr)) : ∃ message, (message, n) ∈ processed (!role) tr := by
  have hposted := (took_inOrder hrun hepoch role).subset hack
  have hn : n ∈ (processed (!role) tr).map Prod.snd := by
    rw [processed, ← (books_of_run hrun (!role)).numbering.acks]
    exact List.mem_filterMap.mpr ⟨_, List.mem_append_left _ hposted, rfl⟩
  obtain ⟨⟨message, n'⟩, hmem, rfl⟩ := List.mem_map.mp hn
  exact ⟨message, hmem⟩

/-- **An acknowledged message has arrived.**  When a client is told that its message was
acknowledged, the reliable sender of the other side has taken in that very message, as the one of its
position; and as long as the connection of the other side runs and its event loop listens, the client
channel has accepted it, or it is the message the reliable sender is about to pass up.  The heartbeats
submitted have to carry a time that can be encoded. -/
theorem arrived_of_answered (hrun : (machine flexbuffers).Run (start secret) tr t)
    (hepoch : ∀ role, ∀ message ∈ submitted role tr, message.SinceEpoch) {role : Bool}
    (hfew : (submitted role tr).length < 2 ^ 64) {tx : Oneshot} (htx : tx ∈ answered role tr) :
    ∃ message, (submitted role tr)[tx]? = some message ∧
      (processed (!role) tr)[tx]? = some (message, Stack.number tx) ∧
      ((t.side (!role)).conn.phase.Live → (t.side (!role)).clientOpen = true →
        (delivered (!role) tr ++ Stack.pending (t.side (!role)).phase)[tx]? = some message) := by
  obtain ⟨⟨message, hstarted⟩, hack⟩ := (books_of_run hrun role).waiters.answered tx htx
  obtain ⟨message', hprocessed⟩ := processed_of_ack hrun hepoch hack
  -- the client's request stands at its own position
  obtain ⟨j, hj⟩ := List.mem_iff_getElem?.mp hstarted
  obtain ⟨rfl, hmessage⟩ : tx = j ∧ _ := started_getElem? hrun hj
  -- the frame the peer took in is a request as well, with the same number
  obtain ⟨k, hk⟩ := List.mem_iff_getElem?.mp hprocessed
  have hacross := processed_inOrder hrun hepoch (!role)
  rw [Bool.not_not] at hacross
  have hnumbered := getElem?_of_inOrder hacross hk
  rw [List.getElem?_map] at hnumbered
  obtain ⟨request, hrequest, heq⟩ := Option.map_eq_some_iff.mp hnumbered
  obtain ⟨hposition, hmessage'⟩ := started_getElem? hrun hrequest
  have hsame : k = tx := by
    have hlt := (List.getElem?_eq_some_iff.mp hmessage).1
    have hlt' := (List.getElem?_eq_some_iff.mp hmessage').1
    apply number_inj (by omega) (by omega)
    rw [← hposition]
    exact congrArg Prod.snd heq
  subst hsame
  obtain rfl : request.1 = message' := congrArg Prod.fst heq
  refine ⟨request.1, hmessage', hk, fun hlive hopen => ?_⟩
  have hbooks := books_of_run hrun (!role)
  rw [delivered, hbooks.accepted.whole hopen, hbooks.upward.whole hlive, List.getElem?_map]
  exact congrArg (Option.map Prod.fst) hk

/-- One side sends the next request, and the other acknowledges it and passes it up. -/
def exchanged (role : Bool) : List (TransportInput (Serde.Value × List (Bool × Nat))) :=
  [.own role .takeRequest false, .own role .post false, .own role (.takeCommand true) false,
    .own role .resume false, .receive (!role), .own (!role) .forward false,
    .own (!role) .takeNetwork false, .own (!role) .post false, .own (!role) (.takeCommand true) false,
    .own (!role) .resume false, .own (!role) .passUp false, .receive role, .own role .forward false,
    .own role .takeNetwork false]

def beat : Message := .unicastMessage (.heartbeat ⟨"localhost", 1700000000000000000⟩)

def ping : Message := .unicastMessage (.ping ⟨"localhost", "ping"⟩)

def pong : Message := .unicastMessage (.ping ⟨"localhost", "pong"⟩)

/-- The initiator sends a heartbeat and a ping, the responder a pong in between, and the responder's
event loop receives the heartbeat only. -/
def conversation : List (TransportInput (Serde.Value × List (Bool × Nat))) :=
  [.own true (.request beat) false, .own true (.request ping) false, .own false (.request pong) false] ++
    exchanged true ++ [.own false .consume false] ++ exchanged false ++ exchanged true

/-- What is submitted, accepted and received, and who is answered. -/
theorem run_conversation :
    ∃ tr t, (machine bareValues).Run (start noSecret) tr t ∧
      submitted true tr = [beat, ping] ∧ submitted false tr = [pong] ∧
      delivered false tr = [beat, ping] ∧ consumed false tr = [beat] ∧
      delivered true tr = [pong] ∧ answered true tr = [0, 1] := by
  have hshown : ((machine bareValues).exec (start noSecret) conversation).any (fun r =>
      submitted true r.2 = [beat, ping] ∧ submitted false r.2 = [pong] ∧
        delivered false r.2 = [beat, ping] ∧ consumed false r.2 = [beat] ∧
        delivered true r.2 = [pong] ∧ answered true r.2 = [0, 1]) = true := by
    decide +kernel
  obtain ⟨⟨t, tr⟩, hexec, hall⟩ := (Option.any_eq_true _ _).mp hshown
  exact ⟨tr, t, Machine.run_of_exec hexec, of_decide_eq_true hall⟩

theorem sinceEpoch_of_conversation {tr : List (TransportEvent B)}
    (htrue : submitted true tr = [beat, ping]) (hfalse : submitted false tr = [pong]) (role : Bool) :
    ∀ message ∈ submitted role tr, message.SinceEpoch := by
  intro message hmem
  cases role with
  | false =>
      rw [hfalse] at hmem
      rw [List.mem_singleton.mp hmem]
      trivial
  | true =>
      rw [htrue] at hmem
      rcases List.mem_pair.mp hmem with rfl | rfl
      · exact ⟨by decide, by decide⟩
      · trivial

theorem pipe_of_run_conversation :
    ∃ tr t, (machine bareValues).Run (start noSecret) tr t ∧
      delivered false tr = [beat, ping] ∧ consumed false tr = [beat] ∧
      (∃ contents, (Pipe.machine Message).Run [] (tr.filterMap (carried SideEvent.accepted? true))
        contents) ∧
      ∃ contents, (Pipe.machine Message).Run [] (tr.filterMap (carried SideEvent.consumed? true))
        contents := by
  obtain ⟨tr, t, hrun, htrue, hfalse, hdelivered, hconsumed, -⟩ := run_conversation
  exact ⟨tr, t, hrun, hdelivered, hconsumed,
    pipe_of_run hrun (sinceEpoch_of_conversation htrue hfalse) true⟩

/-- The second message is acknowledged after the first, with the number 2. -/
theorem arrived_of_answered_conversation :
    ∃ tr t, (machine bareValues).Run (start noSecret) tr t ∧ answered true tr = [0, 1] ∧
      ∃ message, (submitted true tr)[1]? = some message ∧
        (processed false tr)[1]? = some (message, 2) := by
  obtain ⟨tr, t, hrun, htrue, hfalse, -, -, -, hanswered⟩ := run_conversation
  have hfew : (submitted true tr).length < 2 ^ 64 := by
    rw [htrue]
    decide
  have htx : 1 ∈ answered true tr := by
    rw [hanswered]
    exact List.mem_cons_of_mem _ (List.mem_singleton_self 1)
  obtain ⟨message, hsubmitted, hprocessed, -⟩ :=
    arrived_of_answered hrun (sinceEpoch_of_conversation htrue hfalse) hfew htx
  exact ⟨tr, t, hrun, hanswered, message, hsubmitted, hprocessed⟩

end EndToEnd

end Transport

end FrostFederation.Connection
