/-
# FrostFederation.Connection.Channel — two connection actors on one stream are a FIFO channel.

Two tasks in transport mode, one for each role, on an ordered byte stream.  The stream delivers whole
frames in order and may break at any point: a break keeps some of the frames under way and swallows
whatever is written later, a write may fail with its frame on the wire or off it, and a reader may
see the end of the stream or an error at any time.

In every run, what a subscriber receives is a PREFIX of what the other end took from its command
channel, no frame fails to decrypt, and a sender is answered `Ok` only after its frame was written.
The reason is one relation per direction (`Flow`): as long as the receiver runs, the messages taken
are those received, the one it holds, those under way, and some that are lost for good; the frames
under way are encrypted from the receiver's own counter value on; and nothing is lost while the
sender runs and the stream is whole.  A path that encrypts without writing ends its task, so no later
frame can go out with a skipped nonce.
-/
import FrostFederation.Connection.Actor

namespace FrostFederation.Connection

open FrostFederation.Lib
open FrostFederation.Lib.Noise
open FrostFederation.Lib.Serde (Format)
open FrostFederation.ReliableSender (ReliableNetworkMessage)

variable {B : Type} {snow : Snow B}

/-! ## The two ends and the stream -/

/-- One direction of the stream: the frames under way, and whether it has broken. -/
structure Link (B : Type) where
  frames : List B
  broken : Bool

/-- What is written after a break is gone. -/
def Link.push (link : Link B) (frames : List B) : Link B :=
  if link.broken then link else { link with frames := link.frames ++ frames }

/-- The frames that get onto the stream in a step; a write that fails may still get through. -/
def Event.written (e : Event B) (reached : Bool) : List B :=
  e.effects.filterMap fun
    | .write frame ok => if ok || reached then some frame else none
    | _ => none

/-- The task of each role, and the link TO each role. -/
structure Channel (snow : Snow B) where
  task : Bool → ConnectionTask (NoiseHandler snow)
  link : Bool → Link B

inductive ChannelInput where
  /-- `reached` says whether the frame of a write that fails gets onto the stream. -/
  | command (role : Bool) (message : ConnectionMessage) (written reached : Bool)
  | receive (role : Bool)
  /-- The reader yields its end, or an error. -/
  | finish (role : Bool) (error : Bool)
  | forward (role : Bool) (subscribed : Bool)
  | cut (role : Bool) (kept : Nat)

inductive ChannelEvent (B : Type) where
  | own (role : Bool) (e : Event B)
  | broke (role : Bool) (kept : Nat)

/-- The event at one end. -/
def ChannelEvent.at? (role : Bool) : ChannelEvent B → Option (Event B)
  | .own side e => if side = role then some e else none
  | .broke _ _ => none

namespace Channel

/-- Both ends have just finished their handshake. -/
def start (secret : snow.Secret) : Channel snow where
  task role := ⟨.transporting role secret 0 0, .selecting⟩
  link _ := ⟨[], false⟩

section Step

variable (flexbuffers : Format B)

/-- One end takes a step; `inbox` is its own link afterwards. -/
def advance (c : Channel snow) (role : Bool) (i : Input B) (inbox : Link B) (reached : Bool) :
    Option (Channel snow × ChannelEvent B) :=
  ((ConnectionTask.machine flexbuffers).step (c.task role) i).map fun r =>
    (⟨Function.update c.task role r.1,
      fun side => if side = role then inbox else (c.link side).push (r.2.written reached)⟩,
      .own role r.2)

def step (c : Channel snow) : ChannelInput → Option (Channel snow × ChannelEvent B)
  | .command role message written reached =>
      c.advance flexbuffers role (.command message written) (c.link role) reached
  | .receive role =>
      match (c.link role).frames with
      | [] => none
      | frame :: rest =>
          c.advance flexbuffers role (.next (some (.frame frame)))
            { c.link role with frames := rest } false
  | .finish role error =>
      c.advance flexbuffers role (.next (if error then some .error else none)) (c.link role) false
  | .forward role subscribed =>
      c.advance flexbuffers role (.forward subscribed) (c.link role) false
  | .cut role kept =>
      some ({ c with link := Function.update c.link role ⟨(c.link role).frames.take kept, true⟩ },
        .broke role kept)

def machine : Machine (Channel snow) ChannelInput (ChannelEvent B) := ⟨step flexbuffers⟩

/-- The two things a step of the channel can be. -/
inductive Stepped (c : Channel snow) (ce : ChannelEvent B) (c' : Channel snow) : Prop
  | own {role : Bool} {e : Event B} (reached : Bool) (hce : ce = .own role e)
      (htask : ConnectionTask.Stepped flexbuffers (c.task role) e (c'.task role))
      (hother : c'.task (!role) = c.task (!role))
      (hread : ∀ frame, e.input = .next (some (.frame frame)) →
        (c.link role).frames = frame :: (c'.link role).frames)
      (hkept : (∀ frame, e.input ≠ .next (some (.frame frame))) → c'.link role = c.link role)
      (hbroken : (c'.link role).broken = (c.link role).broken)
      (hpush : c'.link (!role) = (c.link (!role)).push (e.written reached)) : Stepped c ce c'
  | cut {role : Bool} {kept : Nat} (hce : ce = .broke role kept) (htask : c'.task = c.task)
      (hlink : c'.link role = ⟨(c.link role).frames.take kept, true⟩)
      (hother : c'.link (!role) = c.link (!role)) : Stepped c ce c'

variable {flexbuffers} {c c' : Channel snow} {ce : ChannelEvent B}

theorem stepped_of_advance {role : Bool} {i : Input B} {inbox : Link B} {reached : Bool}
    (hs : c.advance flexbuffers role i inbox reached = some (c', ce))
    (hread : ∀ frame, i = .next (some (.frame frame)) → (c.link role).frames = frame :: inbox.frames)
    (hkept : (∀ frame, i ≠ .next (some (.frame frame))) → inbox = c.link role)
    (hbroken : inbox.broken = (c.link role).broken) : Stepped flexbuffers c ce c' := by
  obtain ⟨⟨t, e⟩, hstep, heq⟩ := Option.map_eq_some_iff.mp hs
  obtain ⟨rfl, rfl⟩ := Prod.mk.inj heq
  have hinput : e.input = i := ConnectionTask.input_of_step hstep
  refine .own reached rfl ?_ ?_ ?_ ?_ ?_ ?_
  · simpa using ConnectionTask.stepped_of_step hstep
  · simp
  · simpa [hinput] using hread
  · simpa [hinput] using hkept
  · simpa using hbroken
  · simp

/-- **Every step of the channel is one of the two.** -/
theorem stepped_of_step {i : ChannelInput} (hs : (machine flexbuffers).step c i = some (c', ce)) :
    Stepped flexbuffers c ce c' := by
  cases i with
  | command role message written reached =>
      exact stepped_of_advance hs (by simp) (fun _ => rfl) rfl
  | receive role =>
      simp only [machine, step] at hs
      split at hs
      · cases hs
      · next frame rest hframes =>
          refine stepped_of_advance hs ?_ ?_ rfl
          · rintro frame' heq
            cases heq
            exact hframes
          · intro hnone
            exact absurd rfl (hnone frame)
  | finish role error =>
      exact stepped_of_advance hs (by cases error <;> simp) (fun _ => rfl) rfl
  | forward role subscribed =>
      exact stepped_of_advance hs (by simp) (fun _ => rfl) rfl
  | cut role kept =>
      cases hs
      exact .cut rfl rfl (by simp) (by simp)

end Step

end Channel

/-! ## What goes in and what comes out -/

namespace Event

/-- The message a step takes from the command channel. -/
def taken? (e : Event B) : Option ReliableNetworkMessage :=
  match e.input with
  | .command (.send data _) _ => some data
  | _ => none

/-- The messages a step puts into the subscriber channel. -/
def delivered (e : Event B) : List ReliableNetworkMessage :=
  e.effects.filterMap fun
    | .deliver message => some message
    | _ => none

end Event

/-- Every time in a message that is taken can be sent. -/
def ChannelEvent.SinceEpoch (ce : ChannelEvent B) : Prop :=
  ∀ role e data, ce = .own role e → e.taken? = some data → data.SinceEpoch

namespace Channel

/-- The messages an end took from its command channel, in order. -/
def taken (role : Bool) (tr : List (ChannelEvent B)) : List ReliableNetworkMessage :=
  (tr.filterMap (ChannelEvent.at? role)).filterMap Event.taken?

/-- The messages the subscriber of an end received, in order. -/
def received (role : Bool) (tr : List (ChannelEvent B)) : List ReliableNetworkMessage :=
  (tr.filterMap (ChannelEvent.at? role)).flatMap Event.delivered

section Histories

variable {role : Bool} {tr : List (ChannelEvent B)} {e : Event B} {kept : Nat}

@[simp]
theorem taken_own_self : taken role (tr ++ [.own role e]) = taken role tr ++ e.taken?.toList := by
  cases h : e.taken? <;> simp [taken, ChannelEvent.at?, h]

@[simp]
theorem taken_own_not : taken (!role) (tr ++ [.own role e]) = taken (!role) tr := by
  simp [taken, ChannelEvent.at?]

@[simp]
theorem taken_broke {side : Bool} : taken role (tr ++ [.broke side kept]) = taken role tr := by
  simp [taken, ChannelEvent.at?]

@[simp]
theorem received_own_self :
    received role (tr ++ [.own role e]) = received role tr ++ e.delivered := by
  simp [received, ChannelEvent.at?]

@[simp]
theorem received_own_not : received (!role) (tr ++ [.own role e]) = received (!role) tr := by
  simp [received, ChannelEvent.at?]

@[simp]
theorem received_broke {side : Bool} :
    received role (tr ++ [.broke side kept]) = received role tr := by
  simp [received, ChannelEvent.at?]

/-- If every message taken can be sent, so can those of each step. -/
theorem sinceEpoch_of_taken (h : ∀ role, ∀ data ∈ taken role tr, data.SinceEpoch) :
    ∀ ce ∈ tr, ce.SinceEpoch := by
  intro ce hce role e data heq htaken
  apply h role data
  refine List.mem_filterMap.mpr ⟨e, List.mem_filterMap.mpr ⟨ce, hce, ?_⟩, htaken⟩
  simp [heq, ChannelEvent.at?]

end Histories

/-! ## Frames under way -/

section Carries

variable (flexbuffers : Format B) (secret : snow.Secret) (role : Bool)

/-- `frame` is the message, encrypted by `role` at counter value `n`. -/
def Sealed (n : Nat) (message : ReliableNetworkMessage) (frame : B) : Prop :=
  ∃ bytes, snow.size bytes + tagLength ≤ maxMessageLength ∧
    ReliableNetworkMessage.fromBytes flexbuffers bytes = .ok message ∧
    frame = snow.encrypt secret role n bytes

/-- The frames are the messages, encrypted at consecutive counter values from `n` on. -/
inductive Carries : Nat → List ReliableNetworkMessage → List B → Prop
  | nil {n : Nat} : Carries n [] []
  | cons {n : Nat} {message : ReliableNetworkMessage} {frame : B}
      {messages : List ReliableNetworkMessage} {frames : List B} :
      Sealed flexbuffers secret role n message frame → Carries (n + 1) messages frames →
      Carries n (message :: messages) (frame :: frames)

variable {flexbuffers secret role} {n : Nat} {messages : List ReliableNetworkMessage}
  {frames : List B}

theorem Carries.snoc {message : ReliableNetworkMessage} {frame : B}
    (h : Carries flexbuffers secret role n messages frames)
    (hlast : Sealed flexbuffers secret role (n + messages.length) message frame) :
    Carries flexbuffers secret role n (messages ++ [message]) (frames ++ [frame]) := by
  induction h with
  | nil => exact .cons hlast .nil
  | @cons n _ _ messages _ hfirst _ ih =>
      refine .cons hfirst (ih ?_)
      rwa [List.length_cons, Nat.add_comm messages.length 1, ← Nat.add_assoc] at hlast

theorem Carries.take (h : Carries flexbuffers secret role n messages frames) (kept : Nat) :
    Carries flexbuffers secret role n (messages.take kept) (frames.take kept) := by
  induction h generalizing kept with
  | nil => simpa using Carries.nil
  | cons hfirst _ ih =>
      cases kept with
      | zero => exact .nil
      | succ kept => exact .cons hfirst (ih kept)

end Carries

/-! ## The flow of one direction -/

/-- The message a task has read and not forwarded yet. -/
def held : Phase → List ReliableNetworkMessage
  | .forwarding message => [message]
  | _ => []

section Flow

variable (flexbuffers : Format B) (secret : snow.Secret)

/-- A task that runs encrypts and decrypts for its role, under the shared secret. -/
def Keyed (c : Channel snow) : Prop :=
  ∀ role, (c.task role).phase.Live →
    (c.task role).noise =
      .transporting role secret (c.task role).noise.sending (c.task role).noise.receiving

/-- **The flow from `s` to `r`.** -/
structure Flow (c : Channel snow) (tr : List (ChannelEvent B)) (s r : Bool) : Prop where
  inOrder : received r tr <+: taken s tr
  underWay : (c.task r).phase.Live → ∃ messages lost,
    taken s tr = received r tr ++ held (c.task r).phase ++ messages ++ lost ∧
    Carries flexbuffers secret s (c.task r).noise.receiving messages (c.link r).frames ∧
    ((c.task s).phase.Live → (c.link r).broken = false →
      lost = [] ∧ (c.task s).noise.sending = (c.task r).noise.receiving + messages.length)

variable {flexbuffers secret} {c c' : Channel snow} {tr : List (ChannelEvent B)} {x : Bool}
  {e : Event B} {reached : Bool}

@[simp]
theorem push_nil (link : Link B) : link.push [] = link := by
  cases link
  simp [Link.push]

theorem keyed_start : Keyed secret (start secret) :=
  fun _ _ => rfl

theorem flow_start (s r : Bool) : Flow flexbuffers secret (start secret) [] s r :=
  ⟨List.prefix_rfl, fun _ => ⟨[], [], rfl, .nil, fun _ _ => ⟨rfl, rfl⟩⟩⟩

/-- A step at the sender that takes nothing and writes nothing. -/
theorem flow_sender_quiet (hflow : Flow flexbuffers secret c tr x (!x))
    (hother : c'.task (!x) = c.task (!x)) (hlink : c'.link (!x) = c.link (!x))
    (htaken : e.taken? = none)
    (hlive : (c'.task x).phase.Live →
      (c.task x).phase.Live ∧ (c'.task x).noise.sending = (c.task x).noise.sending) :
    Flow flexbuffers secret c' (tr ++ [.own x e]) x (!x) := by
  refine ⟨by simpa [htaken] using hflow.inOrder, fun hr => ?_⟩
  rw [hother] at hr ⊢
  obtain ⟨messages, lost, htaken', hcarries, hwhole⟩ := hflow.underWay hr
  refine ⟨messages, lost, by simpa [htaken] using htaken', by rw [hlink]; exact hcarries, ?_⟩
  intro hs hbroken
  rw [hlink] at hbroken
  rw [(hlive hs).2]
  exact hwhole (hlive hs).1 hbroken

/-- A step at the sender that takes a message which does not get onto the stream, because its task
has ended or the stream is broken. -/
theorem flow_sender_lost {data : ReliableNetworkMessage}
    (hflow : Flow flexbuffers secret c tr x (!x)) (hother : c'.task (!x) = c.task (!x))
    (hlink : c'.link (!x) = c.link (!x)) (htaken : e.taken? = some data)
    (hgone : (c'.task x).phase.Live → (c.link (!x)).broken = true) :
    Flow flexbuffers secret c' (tr ++ [.own x e]) x (!x) := by
  refine ⟨?_, fun hr => ?_⟩
  · simpa [htaken] using hflow.inOrder.trans (List.prefix_append _ _)
  rw [hother] at hr ⊢
  obtain ⟨messages, lost, htaken', hcarries, -⟩ := hflow.underWay hr
  refine ⟨messages, lost ++ [data], by simp [htaken, htaken'], by rw [hlink]; exact hcarries, ?_⟩
  intro hs hbroken
  rw [hlink, hgone hs] at hbroken
  cases hbroken

/-- A step at the sender that puts the message it takes onto a whole stream. -/
theorem flow_sender_pushed {data : ReliableNetworkMessage} {frame : B}
    (hflow : Flow flexbuffers secret c tr x (!x)) (hother : c'.task (!x) = c.task (!x))
    (hlink : c'.link (!x) = ⟨(c.link (!x)).frames ++ [frame], (c.link (!x)).broken⟩)
    (htaken : e.taken? = some data) (hlive : (c.task x).phase.Live)
    (hwholeBefore : (c.link (!x)).broken = false)
    (hsealed : Sealed flexbuffers secret x (c.task x).noise.sending data frame)
    (hsending : (c'.task x).phase.Live →
      (c'.task x).noise.sending = (c.task x).noise.sending + 1) :
    Flow flexbuffers secret c' (tr ++ [.own x e]) x (!x) := by
  refine ⟨?_, fun hr => ?_⟩
  · simpa [htaken] using hflow.inOrder.trans (List.prefix_append _ _)
  rw [hother] at hr ⊢
  obtain ⟨messages, lost, htaken', hcarries, hwhole⟩ := hflow.underWay hr
  obtain ⟨rfl, hcounters⟩ := hwhole hlive hwholeBefore
  rw [hcounters] at hsealed
  refine ⟨messages ++ [data], [], by simp [htaken, htaken'], ?_, ?_⟩
  · rw [hlink]
    exact hcarries.snoc hsealed
  · intro hs _
    refine ⟨rfl, ?_⟩
    rw [hsending hs, hcounters, List.length_append, List.length_singleton]
    omega

/-- A command that is encrypted goes onto the stream, or is lost with it. -/
theorem flow_sender_encrypted {data : ReliableNetworkMessage} {bytes frame : B}
    (hkeyed : Keyed secret c) (hflow : Flow flexbuffers secret c tr x (!x))
    (hother : c'.task (!x) = c.task (!x)) (hlive : (c.task x).phase.Live)
    (hpush : c'.link (!x) = (c.link (!x)).push [frame]) (htaken : e.taken? = some data)
    (hepoch : data.SinceEpoch) (hbytes : data.asBytes flexbuffers = some (some bytes))
    (hbuild : NoiseIo.buildTransportMessage (c.task x).noise bytes =
      some ((c'.task x).noise, frame)) :
    Flow flexbuffers secret c' (tr ++ [.own x e]) x (!x) := by
  rw [hkeyed x hlive, NoiseHandler.buildTransportMessage_transporting] at hbuild
  obtain ⟨hfits, hnoise, rfl⟩ := hbuild
  cases hbroken : (c.link (!x)).broken with
  | true =>
      refine flow_sender_lost hflow hother ?_ htaken fun _ => hbroken
      rw [hpush, Link.push, if_pos hbroken]
  | false =>
      refine flow_sender_pushed hflow hother ?_ htaken hlive hbroken
        ⟨bytes, hfits, ReliableNetworkMessage.fromBytes_of_asBytes hepoch hbytes, rfl⟩ fun _ => ?_
      · rw [hpush, Link.push, hbroken]
        rfl
      · rw [hnoise]
        rfl

/-- The sender's side of a step. -/
theorem flow_sender (hkeyed : Keyed secret c) (hflow : Flow flexbuffers secret c tr x (!x))
    (htask : ConnectionTask.Stepped flexbuffers (c.task x) e (c'.task x))
    (hother : c'.task (!x) = c.task (!x))
    (hpush : c'.link (!x) = (c.link (!x)).push (e.written reached))
    (hepoch : ∀ data, e.taken? = some data → data.SinceEpoch) :
    Flow flexbuffers secret c' (tr ++ [.own x e]) x (!x) := by
  -- a step whose effects hold no write leaves the link alone
  have hunwritten : e.written reached = [] → c'.link (!x) = c.link (!x) := by
    intro hnone
    rw [hpush, hnone, push_nil]
  have hended : e.written reached = [] → e.taken? = none → ¬(c'.task x).phase.Live →
      Flow flexbuffers secret c' (tr ++ [.own x e]) x (!x) := fun hnone htaken hdead =>
    flow_sender_quiet hflow hother (hunwritten hnone) htaken fun hlive => absurd hlive hdead
  cases htask with
  | @wrote data tx bytes frame noise hphase hinput hbytes hbuild heff ht' =>
      have htaken : e.taken? = some data := by rw [Event.taken?, hinput]
      exact flow_sender_encrypted hkeyed hflow hother (by simp [hphase])
        (by simpa [Event.written, heff] using hpush) htaken (hepoch data htaken) hbytes
        (by rw [ht']; exact hbuild)
  | @writeFailed data tx bytes frame noise hphase hinput hbytes hbuild heff ht' =>
      have htaken : e.taken? = some data := by rw [Event.taken?, hinput]
      cases reached with
      | true =>
          exact flow_sender_encrypted hkeyed hflow hother (by simp [hphase])
            (by simpa [Event.written, heff] using hpush) htaken (hepoch data htaken) hbytes
            (by rw [ht']; exact hbuild)
      | false =>
          exact flow_sender_lost hflow hother (hunwritten (by simp [Event.written, heff])) htaken
            (by simp [ht'])
  | @unwritten data tx written hphase hinput heff hdead =>
      have htaken : e.taken? = some data := by rw [Event.taken?, hinput]
      exact flow_sender_lost hflow hother (hunwritten (by simp [Event.written, heff])) htaken
        fun hlive => absurd hlive hdead
  | read hphase hinput hread _ heff ht' =>
      have hlive : (c.task x).phase.Live := by simp [hphase]
      refine flow_sender_quiet hflow hother (hunwritten (by simp [Event.written, heff]))
        (by rw [Event.taken?, hinput]) fun _ => ⟨hlive, ?_⟩
      rw [hkeyed x hlive] at hread
      rw [ht', NoiseHandler.eq_of_readTransportMessage hread]
      rfl
  | forwarded hphase hinput heff ht' =>
      refine flow_sender_quiet hflow hother (hunwritten (by simp [Event.written, heff]))
        (by rw [Event.taken?, hinput]) fun _ => ⟨by simp [hphase], ?_⟩
      rw [ht']
  | undecodable _ hinput _ _ heff ht' =>
      exact hended (by simp [Event.written, heff]) (by rw [Event.taken?, hinput]) (by simp [ht'])
  | unreadable _ hinput _ heff ht' =>
      exact hended (by simp [Event.written, heff]) (by rw [Event.taken?, hinput]) (by simp [ht'])
  | ended _ hinput _ heff ht' =>
      exact hended (by simp [Event.written, heff]) (by rw [Event.taken?, hinput]) (by simp [ht'])
  | unsubscribed _ hinput heff ht' =>
      exact hended (by simp [Event.written, heff]) (by rw [Event.taken?, hinput]) (by simp [ht'])

/-- A step at the receiver that ends its task. -/
theorem flow_receiver_ended (hflow : Flow flexbuffers secret c tr (!x) x)
    (hdelivered : e.delivered = []) (hdead : ¬(c'.task x).phase.Live) :
    Flow flexbuffers secret c' (tr ++ [.own x e]) (!x) x :=
  ⟨by simpa [hdelivered] using hflow.inOrder, fun hlive => absurd hlive hdead⟩

/-- A step at the receiver that reads nothing and passes up no more than the task held. -/
theorem flow_receiver_kept (hflow : Flow flexbuffers secret c tr (!x) x)
    (hother : c'.task (!x) = c.task (!x)) (hlink : c'.link x = c.link x)
    (hlive : (c.task x).phase.Live)
    (hreceiving : (c'.task x).noise.receiving = (c.task x).noise.receiving)
    (hheld : held (c.task x).phase = e.delivered ++ held (c'.task x).phase) :
    Flow flexbuffers secret c' (tr ++ [.own x e]) (!x) x := by
  obtain ⟨messages, lost, htaken, hcarries, hwhole⟩ := hflow.underWay hlive
  rw [hheld] at htaken
  refine ⟨?_, fun _ => ⟨messages, lost, ?_, ?_, ?_⟩⟩
  · rw [taken_own_not, received_own_self, htaken]
    simp
  · simpa using htaken
  · rw [hlink, hreceiving]
    exact hcarries
  · rw [hother, hlink, hreceiving]
    exact hwhole

/-- The first frame under way to a running task decrypts and decodes. -/
theorem Flow.next (hflow : Flow flexbuffers secret c tr (!x) x) (hkeyed : Keyed secret c)
    (hlive : (c.task x).phase.Live) {frame : B} {rest : List B}
    (hframes : (c.link x).frames = frame :: rest) :
    ∃ message plain messages lost,
      NoiseIo.readTransportMessage (c.task x).noise frame =
        some (.transporting x secret (c.task x).noise.sending ((c.task x).noise.receiving + 1),
          plain) ∧
      ReliableNetworkMessage.fromBytes flexbuffers plain = .ok message ∧
      taken (!x) tr = received x tr ++ held (c.task x).phase ++ message :: messages ++ lost ∧
      Carries flexbuffers secret (!x) ((c.task x).noise.receiving + 1) messages rest ∧
      ((c.task (!x)).phase.Live → (c.link x).broken = false →
        lost = [] ∧
          (c.task (!x)).noise.sending = (c.task x).noise.receiving + 1 + messages.length) := by
  obtain ⟨messages, lost, htaken, hcarries, hwhole⟩ := hflow.underWay hlive
  rw [hframes] at hcarries
  cases hcarries with
  | @cons _ message _ messages _ hsealed hrest =>
      obtain ⟨plain, hfits, hdecode, rfl⟩ := hsealed
      refine ⟨message, plain, messages, lost, ?_, hdecode, htaken, hrest, ?_⟩
      · conv_lhs => rw [hkeyed x hlive]
        exact NoiseHandler.readTransportMessage_transporting hfits
      · intro hs hbroken
        obtain ⟨hlost, hcounters⟩ := hwhole hs hbroken
        refine ⟨hlost, ?_⟩
        rw [hcounters, List.length_cons]
        omega

/-- The receiver's side of a step. -/
theorem flow_receiver (hkeyed : Keyed secret c) (hflow : Flow flexbuffers secret c tr (!x) x)
    (htask : ConnectionTask.Stepped flexbuffers (c.task x) e (c'.task x))
    (hother : c'.task (!x) = c.task (!x))
    (hread : ∀ frame, e.input = .next (some (.frame frame)) →
      (c.link x).frames = frame :: (c'.link x).frames)
    (hkept : (∀ frame, e.input ≠ .next (some (.frame frame))) → c'.link x = c.link x)
    (hbroken : (c'.link x).broken = (c.link x).broken) :
    Flow flexbuffers secret c' (tr ++ [.own x e]) (!x) x := by
  cases htask with
  | @wrote data tx bytes frame noise hphase hinput hbytes hbuild heff ht' =>
      have hlive : (c.task x).phase.Live := by simp [hphase]
      rw [hkeyed x hlive, NoiseHandler.buildTransportMessage_transporting] at hbuild
      refine flow_receiver_kept hflow hother (hkept (by simp [hinput])) hlive ?_ ?_
      · rw [ht', hbuild.2.1]
        rfl
      · simp [Event.delivered, heff, ht', hphase, held]
  | writeFailed _ _ _ _ heff ht' =>
      exact flow_receiver_ended hflow (by simp [Event.delivered, heff]) (by simp [ht'])
  | unwritten _ _ heff hdead =>
      exact flow_receiver_ended hflow (by simp [Event.delivered, heff]) hdead
  | @read bytes plain message noise hphase hinput hreads hdecode heff ht' =>
      have hlive : (c.task x).phase.Live := by simp [hphase]
      obtain ⟨message', plain', messages, lost, hreads', hdecode', htaken, hcarries, hwhole⟩ :=
        hflow.next hkeyed hlive (hread bytes hinput)
      rw [hreads] at hreads'
      obtain ⟨rfl, rfl⟩ := Prod.mk.inj (Option.some.inj hreads')
      obtain rfl : message = message' := Except.ok.inj (hdecode.symm.trans hdecode')
      refine ⟨by simpa [Event.delivered, heff] using hflow.inOrder, fun _ => ?_⟩
      refine ⟨messages, lost, ?_, ?_, ?_⟩
      · simpa [Event.delivered, heff, ht', hphase, held] using htaken
      · rw [ht']
        exact hcarries
      · rw [hother, hbroken, ht']
        exact hwhole
  | @forwarded message hphase hinput heff ht' =>
      refine flow_receiver_kept hflow hother (hkept (by simp [hinput])) (by simp [hphase]) ?_ ?_
      · rw [ht']
      · simp [Event.delivered, heff, ht', hphase, held]
  | undecodable _ _ _ _ heff ht' =>
      exact flow_receiver_ended hflow (by simp [Event.delivered, heff]) (by simp [ht'])
  | unreadable _ _ _ heff ht' =>
      exact flow_receiver_ended hflow (by simp [Event.delivered, heff]) (by simp [ht'])
  | ended _ _ _ heff ht' =>
      exact flow_receiver_ended hflow (by simp [Event.delivered, heff]) (by simp [ht'])
  | unsubscribed _ _ heff ht' =>
      exact flow_receiver_ended hflow (by simp [Event.delivered, heff]) (by simp [ht'])

/-- A break loses what it does not keep. -/
theorem flow_cut {s r side : Bool} {kept : Nat} (hflow : Flow flexbuffers secret c tr s r)
    (htask : c'.task = c.task)
    (hlink : c'.link r = c.link r ∨ c'.link r = ⟨(c.link r).frames.take kept, true⟩) :
    Flow flexbuffers secret c' (tr ++ [.broke side kept]) s r := by
  refine ⟨by simpa using hflow.inOrder, fun hlive => ?_⟩
  rw [htask] at hlive ⊢
  obtain ⟨messages, lost, htaken, hcarries, hwhole⟩ := hflow.underWay hlive
  rcases hlink with hsame | hcut
  · rw [hsame]
    exact ⟨messages, lost, by simpa using htaken, hcarries, hwhole⟩
  · rw [hcut]
    refine ⟨messages.take kept, messages.drop kept ++ lost, ?_, hcarries.take kept, by simp⟩
    simpa [← List.append_assoc, List.append_assoc _ (messages.take kept)] using htaken

theorem keyed_step {ce : ChannelEvent B} (hst : Stepped flexbuffers c ce c')
    (hkeyed : Keyed secret c) : Keyed secret c' := by
  cases hst with
  | cut _ htask _ _ =>
      unfold Keyed
      rw [htask]
      exact hkeyed
  | @own role e reached _ hst hother _ _ _ _ =>
      intro side hlive
      by_cases hside : side = role
      · subst hside
        cases hst with
        | wrote hphase _ _ hbuild _ ht' =>
            rw [hkeyed side (by simp [hphase]),
              NoiseHandler.buildTransportMessage_transporting] at hbuild
            rw [ht', hbuild.2.1]
            rfl
        | read hphase _ hread _ _ ht' =>
            rw [hkeyed side (by simp [hphase])] at hread
            rw [ht', NoiseHandler.eq_of_readTransportMessage hread]
            rfl
        | forwarded hphase _ _ ht' =>
            rw [ht']
            exact hkeyed side (by simp [hphase])
        | writeFailed _ _ _ _ _ ht' => simp [ht'] at hlive
        | unwritten _ _ _ hdead => exact absurd hlive hdead
        | undecodable _ _ _ _ _ ht' => simp [ht'] at hlive
        | unreadable _ _ _ _ ht' => simp [ht'] at hlive
        | ended _ _ _ _ ht' => simp [ht'] at hlive
        | unsubscribed _ _ _ ht' => simp [ht'] at hlive
      · obtain rfl : side = !role := Bool.eq_not.mpr hside
        rw [hother] at hlive ⊢
        exact hkeyed _ hlive

end Flow

/-! ## The channel is FIFO -/

section Fifo

variable (flexbuffers : Format B) (secret : snow.Secret)

/-- What a step at one end shows: it decrypts what it reads, and it answers `Ok` only to a sender
whose message it has encrypted and written. -/
structure Sound (role : Bool) (e : Event B) : Prop where
  readable : ∀ frame, .read frame false ∉ e.effects
  written : ∀ tx, .respond tx ∈ e.effects → ∃ data bytes frame n,
    e.input = .command (.send data tx) true ∧ data.asBytes flexbuffers = some (some bytes) ∧
    frame = snow.encrypt secret role n bytes ∧ .write frame true ∈ e.effects

/-- **A FIFO channel in each direction.** -/
structure Fifo (tr : List (ChannelEvent B)) : Prop where
  inOrder : ∀ role, received role tr <+: taken (!role) tr
  sound : ∀ role e, .own role e ∈ tr → Sound flexbuffers secret role e

variable {flexbuffers secret} {c c' : Channel snow} {tr : List (ChannelEvent B)}

theorem sound_of_stepped {x : Bool} {e : Event B} (hkeyed : Keyed secret c)
    (hflow : Flow flexbuffers secret c tr (!x) x)
    (htask : ConnectionTask.Stepped flexbuffers (c.task x) e (c'.task x))
    (hread : ∀ frame, e.input = .next (some (.frame frame)) →
      (c.link x).frames = frame :: (c'.link x).frames) : Sound flexbuffers secret x e := by
  cases htask with
  | @wrote data tx bytes frame noise hphase hinput hbytes hbuild heff ht' =>
      rw [hkeyed x (by simp [hphase]), NoiseHandler.buildTransportMessage_transporting] at hbuild
      refine ⟨by simp [heff], fun tx' hmem => ?_⟩
      obtain rfl : tx' = tx := by simpa [heff] using hmem
      exact ⟨data, bytes, frame, _, hinput, hbytes, hbuild.2.2, by simp [heff]⟩
  | @unreadable bytes hphase hinput hunread heff ht' =>
      -- the frame is the first one under way, which decrypts
      have hlive : (c.task x).phase.Live := by simp [hphase]
      obtain ⟨message, plain, messages, lost, hreads, -⟩ :=
        hflow.next hkeyed hlive (hread bytes hinput)
      rw [hunread] at hreads
      cases hreads
  | writeFailed _ _ _ _ heff _ => exact ⟨by simp [heff], by simp [heff]⟩
  | unwritten _ _ heff _ => exact ⟨by simp [heff], by simp [heff]⟩
  | read _ _ _ _ heff _ => exact ⟨by simp [heff], by simp [heff]⟩
  | undecodable _ _ _ _ heff _ => exact ⟨by simp [heff], by simp [heff]⟩
  | ended _ _ _ heff _ => exact ⟨by simp [heff], by simp [heff]⟩
  | forwarded _ _ heff _ => exact ⟨by simp [heff], by simp [heff]⟩
  | unsubscribed _ _ heff _ => exact ⟨by simp [heff], by simp [heff]⟩

/-- What every step keeps. -/
structure Invariant (flexbuffers : Format B) (secret : snow.Secret) (tr : List (ChannelEvent B))
    (c : Channel snow) : Prop where
  keyed : Keyed secret c
  flow : ∀ s r, s = !r → Flow flexbuffers secret c tr s r
  sound : ∀ role e, .own role e ∈ tr → Sound flexbuffers secret role e

theorem invariant_step {ce : ChannelEvent B} (hinv : Invariant flexbuffers secret tr c)
    (hst : Stepped flexbuffers c ce c') (hepoch : ce.SinceEpoch) :
    Invariant flexbuffers secret (tr ++ [ce]) c' := by
  refine ⟨keyed_step hst hinv.keyed, ?_, ?_⟩
  · rintro s r rfl
    cases hst with
    | @own x e reached hce htask hother hread hkept hbroken hpush =>
        subst hce
        by_cases hr : r = x
        · subst hr
          exact flow_receiver hinv.keyed (hinv.flow _ _ rfl) htask hother hread hkept hbroken
        · obtain rfl : r = !x := Bool.eq_not.mpr hr
          rw [Bool.not_not]
          exact flow_sender hinv.keyed (hinv.flow _ _ (Bool.not_not x).symm) htask hother hpush
            fun data => hepoch x e data rfl
    | @cut side kept hce htask hlink hother =>
        subst hce
        apply flow_cut (hinv.flow _ _ rfl) htask
        by_cases hr : r = side
        · exact Or.inr (hr ▸ hlink)
        · exact Or.inl ((Bool.eq_not.mpr hr) ▸ hother)
  · intro role e hmem
    rcases List.mem_append.mp hmem with hold | hlast
    · exact hinv.sound role e hold
    · cases hst with
      | @own x e' reached hce htask hother hread hkept hbroken hpush =>
          obtain ⟨rfl, rfl⟩ : role = x ∧ e = e' := by simpa [hce] using hlast
          exact sound_of_stepped hinv.keyed (hinv.flow _ _ rfl) htask hread
      | cut hce => simp [hce] at hlast

/-- **Two connection actors are a FIFO channel**: whatever the interleaving and wherever the stream
breaks, each subscriber receives a prefix of what the other end took, nothing it reads fails to
decrypt, and an `Ok` means that the frame was written. -/
theorem fifo_of_run (hrun : (machine flexbuffers).RunWith (fun _ ce => ce.SinceEpoch)
    (start secret) tr c) : Fifo flexbuffers secret tr := by
  have hinv : Invariant flexbuffers secret tr c := by
    refine hrun.invariant ⟨keyed_start, fun s r _ => flow_start s r, by simp⟩ ?_
    intro tr c i c' ce _ hinv hs hepoch
    exact invariant_step hinv (stepped_of_step hs) hepoch
  refine ⟨fun role => ?_, hinv.sound⟩
  exact (hinv.flow _ _ rfl).inOrder

/-- The initiator sends two messages and the responder one; the stream to the responder breaks after
its first frame, and a third message of the initiator is swallowed. -/
def brokenStream : List ChannelInput :=
  [.command true (.send (.ack 1) 0) true false, .command true (.send (.ack 2) 1) true false,
    .command false (.send (.ack 7) 0) true false, .cut false 1,
    .command true (.send (.ack 3) 2) true false, .receive false, .forward false true,
    .receive true, .forward true true, .finish false true]

theorem fifo_of_run_brokenStream :
    ∃ tr c, (machine bareValues).exec (start noSecret) brokenStream =
        some (c, tr) ∧
      taken true tr = [.ack 1, .ack 2, .ack 3] ∧ received false tr = [.ack 1] ∧
      received true tr = [.ack 7] ∧ Fifo bareValues noSecret tr := by
  have hexec : (machine bareValues).exec (start noSecret) brokenStream =
    some (_, _) := rfl
  refine ⟨_, _, hexec, rfl, rfl, rfl, ?_⟩
  apply fifo_of_run (Machine.RunWith.guarded (Machine.run_of_exec hexec) ?_)
  apply sinceEpoch_of_taken
  intro role data hdata
  -- only acknowledgements are taken, and they carry no time
  have hack : ∃ n, data = .ack n := by
    cases role
    · exact ⟨7, List.mem_singleton.mp hdata⟩
    · rcases List.mem_cons.mp hdata with h | h
      · exact ⟨1, h⟩
      · rcases List.mem_cons.mp h with h | h
        · exact ⟨2, h⟩
        · exact ⟨3, List.mem_singleton.mp h⟩
  obtain ⟨n, rfl⟩ := hack
  trivial

end Fifo

end Channel

end FrostFederation.Connection
