/-
# FrostFederation.Connection.Session — a connection from its first handshake message on.

Both ends of a connection on an ordered byte stream, each from `run_handshake` to the loop of its
connection actor.  The end that accepted the connection is the initiator.  A step is a piece of
`run_handshake` between two awaits, or a step of the actor after it; the stream may break at any
point.  The two ends do not finish together: the initiator is in transport mode, and may send, while
the responder still waits for the third message.

If the cryptography is correct (`Agreement`), the session IMPLEMENTS the channel of two actors that
start with a common secret: the abstraction strips the handshake messages from the links and lets an
end that is still in its handshake stand for one that has not taken a step (`channel`).  Each step of
the session is a step of the channel or none at all, so the session is FIFO, no frame fails to
decrypt, and an end panics in its handshake only if the stream ends under it.
-/
import FrostFederation.Connection.Channel

namespace FrostFederation.Connection

open FrostFederation.Lib
open FrostFederation.Lib.Noise
open FrostFederation.Lib.Serde (Format)
open FrostFederation.ReliableSender (ReliableNetworkMessage)

variable {B : Type} {snow : Snow B}

/-! ## One end -/

/-- Where one end of a connection stands: `run_handshake` has read nothing yet (`fresh`), or has read
and written (`waiting`); the connection actor runs; or the handshake has panicked. -/
inductive Party (snow : Snow B) where
  | fresh (noise : NoiseHandler snow)
  | waiting (noise : NoiseHandler snow)
  | running (task : ConnectionTask (NoiseHandler snow))
  | panicked

inductive PartyInput (B : Type) where
  /-- The initiator writes the first message. -/
  | hello
  /-- An input of the connection actor; the handshake reads from the same stream. -/
  | connection (input : Input B)

/-- What a step of one end shows: the messages that a piece of the handshake writes, or a step of the
connection actor. -/
inductive PartyEvent (B : Type) where
  | handshake (input : PartyInput B) (written : List B)
  | own (e : Event B)

section Pieces

variable {N : Type} [NoiseIo N B]

/-- `initiator_handshake` up to its first read. -/
def initiatorFirst (noise : N) : Option (N × B) := NoiseIo.buildHandshakeMessage noise "1"

/-- `initiator_handshake` from its read on. -/
def initiatorSecond (noise : N) (m2 : B) : Option (N × B) := do
  let (noise, _) ← NoiseIo.readHandshakeMessage noise m2
  NoiseIo.buildHandshakeMessage noise "-> s, se"

/-- `responder_handshake` between its two reads. -/
def responderFirst (noise : N) (m1 : B) : Option (N × B) := do
  let (noise, _) ← NoiseIo.readHandshakeMessage noise m1
  NoiseIo.buildHandshakeMessage noise "<- e, ee, s, es"

/-- `responder_handshake` from its second read on. -/
def responderSecond (noise : N) (m3 : B) : Option N := do
  let (noise, _) ← NoiseIo.readHandshakeMessage noise m3
  return noise

/-- **The pieces are `run_handshake`.** -/
theorem runHandshake_pieces (noise : N) (initiator : Bool) (reader : Reader B) :
    runHandshake noise initiator reader =
      if initiator then do
        let (noise, m1) ← .unwrap (initiatorFirst noise)
        let (m2, reader) ← reader.nextFrame
        let (noise, m3) ← .unwrap (initiatorSecond noise m2)
        let noise ← .unwrap (NoiseIo.startTransport noise)
        return (noise, reader, [m1, m3])
      else do
        let (m1, reader) ← reader.nextFrame
        let (noise, m2) ← .unwrap (responderFirst noise m1)
        let (m3, reader) ← reader.nextFrame
        let noise ← .unwrap (responderSecond noise m3)
        let noise ← .unwrap (NoiseIo.startTransport noise)
        return (noise, reader, [m2]) := by
  cases initiator with
  | true =>
      simp only [runHandshake, initiatorHandshake, initiatorFirst, initiatorSecond, if_true]
      cases NoiseIo.buildHandshakeMessage noise "1" with
      | none => rfl
      | some first =>
          simp only [Outcome.unwrap_some, Outcome.done_bind]
          cases reader.nextFrame with
          | panicked => rfl
          | waiting => rfl
          | done next =>
              simp only [Outcome.done_bind]
              cases NoiseIo.readHandshakeMessage first.1 next.1 with
              | none => rfl
              | some read =>
                  simp only [Outcome.unwrap_some, Outcome.done_bind, Option.bind_eq_bind,
                    Option.bind_some]
                  cases NoiseIo.buildHandshakeMessage read.1 "-> s, se" <;> rfl
  | false =>
      simp only [runHandshake, responderHandshake, responderFirst, responderSecond,
        Bool.false_eq_true, if_false]
      cases reader.nextFrame with
      | panicked => rfl
      | waiting => rfl
      | done first =>
          simp only [Outcome.done_bind]
          cases NoiseIo.readHandshakeMessage noise first.1 with
          | none => rfl
          | some read =>
              simp only [Outcome.unwrap_some, Outcome.done_bind, Option.bind_eq_bind,
                Option.bind_some]
              cases NoiseIo.buildHandshakeMessage read.1 "<- e, ee, s, es" with
              | none => rfl
              | some second =>
                  simp only [Outcome.unwrap_some, Outcome.done_bind]
                  cases first.2.nextFrame with
                  | panicked => rfl
                  | waiting => rfl
                  | done third =>
                      simp only [Outcome.done_bind]
                      cases NoiseIo.readHandshakeMessage second.1 third.1 <;> rfl

end Pieces

namespace Party

/-- The handshake is over: `start_transport`, and the loop of the actor. -/
def started (noise : NoiseHandler snow) : Party snow :=
  match NoiseIo.startTransport noise with
  | some noise => .running ⟨noise, .selecting⟩
  | none => .panicked

/-- The initiator in its handshake: it speaks first, and reads once. -/
def stepInitiator (p : Party snow) (i : PartyInput B) : Option (Party snow × List B) :=
  match p, i with
  | .fresh noise, .hello =>
      match initiatorFirst noise with
      | some (noise, m1) => some (.waiting noise, [m1])
      | none => some (.panicked, [])
  | .waiting noise, .connection (.next (some (.frame m2))) =>
      match initiatorSecond noise m2 with
      | some (noise, m3) => some (started noise, [m3])
      | none => some (.panicked, [])
  -- `reader.next().await.unwrap().unwrap()`
  | .waiting _, .connection (.next _) => some (.panicked, [])
  | _, _ => none

/-- The responder in its handshake: it reads twice. -/
def stepResponder (p : Party snow) (i : PartyInput B) : Option (Party snow × List B) :=
  match p, i with
  | .fresh noise, .connection (.next (some (.frame m1))) =>
      match responderFirst noise m1 with
      | some (noise, m2) => some (.waiting noise, [m2])
      | none => some (.panicked, [])
  | .waiting noise, .connection (.next (some (.frame m3))) =>
      match responderSecond noise m3 with
      | some noise => some (started noise, [])
      | none => some (.panicked, [])
  | .fresh _, .connection (.next _) => some (.panicked, [])
  | .waiting _, .connection (.next _) => some (.panicked, [])
  | _, _ => none

/-- One end takes a step. -/
def step (flexbuffers : Format B) (role : Bool) (p : Party snow) (i : PartyInput B) :
    Option (Party snow × PartyEvent B) :=
  match p, i with
  | .running task, .connection i =>
      ((ConnectionTask.machine flexbuffers).step task i).map fun r => (.running r.1, .own r.2)
  | p, i =>
      (if role then p.stepInitiator i else p.stepResponder i).map fun r => (r.1, .handshake i r.2)

end Party

/-! ## Both ends -/

/-- The frames that get onto the stream in a step. -/
def PartyEvent.written (pe : PartyEvent B) (reached : Bool) : List B :=
  match pe with
  | .handshake _ written => written
  | .own e => e.written reached

/-- The end of each role, and the link TO each role. -/
structure Session (snow : Snow B) where
  party : Bool → Party snow
  link : Bool → Link B

inductive SessionInput where
  | hello
  | command (role : Bool) (message : ConnectionMessage) (written reached : Bool)
  | receive (role : Bool)
  | finish (role : Bool) (error : Bool)
  | forward (role : Bool) (subscribed : Bool)
  | cut (role : Bool) (kept : Nat)

inductive SessionEvent (B : Type) where
  | own (role : Bool) (pe : PartyEvent B)
  | broke (role : Bool) (kept : Nat)

/-- The step of the connection actor at one end. -/
def SessionEvent.at? (role : Bool) : SessionEvent B → Option (Event B)
  | .own side (.own e) => if side = role then some e else none
  | _ => none

namespace Session

/-- Both ends have been built with their keys, and nothing has been sent. -/
def start (key : Bool → snow.Key) : Session snow where
  party role := .fresh (.handshaking role (snow.initial role (key role)) role NoiseHandler.patternMessages)
  link _ := ⟨[], false⟩

/-- One end has gone on to `p` and has written `frames`; `inbox` is what is left on its own link. -/
def moved (s : Session snow) (role : Bool) (p : Party snow) (inbox : Link B) (frames : List B) :
    Session snow where
  party := Function.update s.party role p
  link side := if side = role then inbox else (s.link side).push frames

section Step

variable (flexbuffers : Format B)

/-- One end takes a step; `inbox` is its own link afterwards.  A break of the stream before a write
swallows what is written, and the handshake does not look at the result. -/
def advance (s : Session snow) (role : Bool) (i : PartyInput B) (inbox : Link B) (reached : Bool) :
    Option (Session snow × SessionEvent B) :=
  ((s.party role).step flexbuffers role i).map fun r =>
    (s.moved role r.1 inbox (r.2.written reached), .own role r.2)

def step (s : Session snow) : SessionInput → Option (Session snow × SessionEvent B)
  | .hello => s.advance flexbuffers true .hello (s.link true) false
  | .command role message written reached =>
      s.advance flexbuffers role (.connection (.command message written)) (s.link role) reached
  | .receive role =>
      match (s.link role).frames with
      | [] => none
      | frame :: rest =>
          s.advance flexbuffers role (.connection (.next (some (.frame frame))))
            { s.link role with frames := rest } false
  | .finish role error =>
      s.advance flexbuffers role (.connection (.next (if error then some .error else none)))
        (s.link role) false
  | .forward role subscribed =>
      s.advance flexbuffers role (.connection (.forward subscribed)) (s.link role) false
  | .cut role kept =>
      some ({ s with link := Function.update s.link role ⟨(s.link role).frames.take kept, true⟩ },
        .broke role kept)

def machine : Machine (Session snow) SessionInput (SessionEvent B) := ⟨step flexbuffers⟩

end Step

end Session

/-! ## The handshake of two honest ends -/

/-- What the two ends compute in an undisturbed handshake: the secrets of the responder after the
first message and of the initiator after the second, and that all three messages are read. -/
structure Transcript (snow : Snow B) (key : Bool → snow.Key) where
  responder : snow.Secret
  initiator : snow.Secret
  read₁ : ∃ text, snow.read (snow.initial false (key false)) (snow.write (snow.initial true (key true)) "1").2 =
    some (responder, text)
  read₂ : ∃ text, snow.read (afterFirst (key true)) (snow.write responder "<- e, ee, s, es").2 =
    some (initiator, text)
  read₃ : ∃ text, snow.read (snow.write responder "<- e, ee, s, es").1
    (snow.write initiator "-> s, se").2 = some ((snow.write initiator "-> s, se").1, text)

/-- Correct cryptography carries a handshake through. -/
theorem exists_transcript (agreement : Agreement snow.toSuite NoiseHandler.patternMessages)
    (key : Bool → snow.Key) : Nonempty (Transcript snow key) := by
  have hpaired := agreement.initial (key true) (key false)
  obtain ⟨r₁, text₁, hread₁, hpaired₁⟩ := agreement.next "1" hpaired
  obtain ⟨i₂, text₂, hread₂, hpaired₂⟩ := agreement.next "<- e, ee, s, es" hpaired₁
  obtain ⟨r₃, text₃, hread₃, hpaired₃⟩ := agreement.next "-> s, se" hpaired₂
  rw [agreement.final hpaired₃] at hread₃
  exact ⟨⟨r₁, i₂, ⟨text₁, hread₁⟩, ⟨text₂, hread₂⟩, ⟨text₃, hread₃⟩⟩⟩

namespace Transcript

variable {key : Bool → snow.Key} (T : Transcript snow key)

def m1 (_ : Transcript snow key) : B := (snow.write (snow.initial true (key true)) "1").2

def m2 : B := (snow.write T.responder "<- e, ee, s, es").2

def m3 : B := (snow.write T.initiator "-> s, se").2

/-- The secret both ends have in the end. -/
def secret : snow.Secret := (snow.write T.initiator "-> s, se").1

/-- The initiator after its first message. -/
def afterHello (_ : Transcript snow key) : Party snow :=
  .waiting (.handshaking true (afterFirst (key true)) false 2)

/-- The responder after its message. -/
def afterAnswer : Party snow :=
  .waiting (.handshaking false (snow.write T.responder "<- e, ee, s, es").1 false 1)

/-- An end that has just finished its handshake. -/
def ready (role : Bool) : ConnectionTask (NoiseHandler snow) := ⟨.transporting role T.secret 0 0, .selecting⟩

theorem size_write_le (secret : snow.Secret) (payload : String)
    (hshort : payload.utf8ByteSize + handshakeOverhead ≤ maxMessageLength) :
    ¬maxMessageLength < snow.size (snow.write secret payload).2 :=
  Nat.not_lt.mpr (Nat.le_trans (snow.size_write secret payload) hshort)

theorem hello_eq :
    initiatorFirst (NoiseHandler.handshaking true (snow.initial true (key true)) true 3) =
      some (.handshaking true (afterFirst (key true)) false 2, T.m1) :=
  NoiseHandler.buildHandshakeMessage_handshaking true _ 2 "1" (by decide)

theorem answer_eq :
    responderFirst (NoiseHandler.handshaking false (snow.initial false (key false)) false 3) T.m1 =
      some (.handshaking false (snow.write T.responder "<- e, ee, s, es").1 false 1, T.m2) := by
  obtain ⟨text, hread⟩ := T.read₁
  have hbuild := NoiseHandler.buildHandshakeMessage_handshaking false T.responder 1 "<- e, ee, s, es"
    (by decide)
  have hfits := size_write_le (snow.initial true (key true)) "1" (by decide)
  simp [responderFirst, NoiseHandler.readHandshakeMessage_handshaking, m1, hread, hfits, hbuild, m2]

theorem confirm_eq :
    initiatorSecond (NoiseHandler.handshaking true (afterFirst (key true)) false 2) T.m2 =
      some (.handshaking true T.secret false 0, T.m3) := by
  obtain ⟨text, hread⟩ := T.read₂
  have hbuild := NoiseHandler.buildHandshakeMessage_handshaking true T.initiator 0 "-> s, se" (by decide)
  have hfits := size_write_le T.responder "<- e, ee, s, es" (by decide)
  simp [initiatorSecond, NoiseHandler.readHandshakeMessage_handshaking, m2, hread, hfits, hbuild, m3,
    secret]

theorem confirmed_eq :
    responderSecond (NoiseHandler.handshaking false (snow.write T.responder "<- e, ee, s, es").1 false 1)
      T.m3 = some (.handshaking false T.secret true 0) := by
  obtain ⟨text, hread⟩ := T.read₃
  have hfits := size_write_le T.initiator "-> s, se" (by decide)
  simp [responderSecond, NoiseHandler.readHandshakeMessage_handshaking, m3, hread, hfits, secret]

theorem started_eq (role myTurn : Bool) :
    Party.started (.handshaking role T.secret myTurn 0) = .running (T.ready role) := by
  rw [Party.started, NoiseHandler.startTransport_handshaking]
  rfl

end Transcript

/-! ## What one step can do -/

/-- What a step of one end reads from its link. -/
inductive Reads (link : Link B) : PartyInput B → Link B → Prop
  | kept {i : PartyInput B} (hnot : ∀ item, i ≠ .connection (.next item)) : Reads link i link
  | ended {item : Option (Item B)} (hitem : ∀ frame, item ≠ some (.frame frame)) :
      Reads link (.connection (.next item)) link
  | read {frame : B} {rest : List B} (hframes : link.frames = frame :: rest) :
      Reads link (.connection (.next (some (.frame frame)))) { link with frames := rest }

namespace Session

variable {flexbuffers : Format B} {s s' : Session snow} {se : SessionEvent B}

/-- A step is a step of one end, or a break of the stream. -/
theorem step_cases {i : SessionInput} (hs : (machine flexbuffers).step s i = some (s', se)) :
    (∃ role i' inbox reached p' pe, (s.party role).step flexbuffers role i' = some (p', pe) ∧
      Reads (s.link role) i' inbox ∧ se = .own role pe ∧
      s' = s.moved role p' inbox (pe.written reached)) ∨
    ∃ role kept, se = .broke role kept ∧
      s' = { s with link := Function.update s.link role ⟨(s.link role).frames.take kept, true⟩ } := by
  have hadvance : ∀ {role i' inbox reached}, s.advance flexbuffers role i' inbox reached = some (s', se) →
      Reads (s.link role) i' inbox → ∃ role i' inbox reached p' pe,
        (s.party role).step flexbuffers role i' = some (p', pe) ∧ Reads (s.link role) i' inbox ∧
        se = .own role pe ∧ s' = s.moved role p' inbox (pe.written reached) := by
    intro role i' inbox reached h hreads
    obtain ⟨⟨p', pe⟩, hstep, heq⟩ := Option.map_eq_some_iff.mp h
    cases heq
    exact ⟨role, i', inbox, reached, p', pe, hstep, hreads, rfl, rfl⟩
  cases i with
  | hello => exact Or.inl (hadvance hs (.kept (by simp)))
  | command role message written reached => exact Or.inl (hadvance hs (.kept (by simp)))
  | forward role subscribed => exact Or.inl (hadvance hs (.kept (by simp)))
  | finish role error => exact Or.inl (hadvance hs (.ended (by cases error <;> simp)))
  | receive role =>
      simp only [machine, step] at hs
      split at hs
      · cases hs
      · next frame rest hframes => exact Or.inl (hadvance hs (.read hframes))
  | cut role kept =>
      cases hs
      exact Or.inr ⟨role, kept, rfl, rfl⟩

/-- A step of one end is a step of its connection actor, or a piece of its handshake. -/
theorem party_cases {role : Bool} {p p' : Party snow} {i : PartyInput B} {pe : PartyEvent B}
    (hs : p.step flexbuffers role i = some (p', pe)) :
    (∃ task task' i' e, p = .running task ∧ i = .connection i' ∧ p' = .running task' ∧ pe = .own e ∧
      (ConnectionTask.machine flexbuffers).step task i' = some (task', e)) ∨
    ∃ written, pe = .handshake i written ∧
      (if role then p.stepInitiator i else p.stepResponder i) = some (p', written) := by
  unfold Party.step at hs
  split at hs
  · next task i' =>
      obtain ⟨⟨task', e⟩, hstep, heq⟩ := Option.map_eq_some_iff.mp hs
      cases heq
      exact Or.inl ⟨task, task', i', e, rfl, rfl, rfl, rfl, hstep⟩
  · obtain ⟨⟨q, written⟩, hstep, heq⟩ := Option.map_eq_some_iff.mp hs
    cases heq
    exact Or.inr ⟨written, rfl, hstep⟩

end Session

/-! ## The channel a session stands for -/

namespace Party

def isRunning : Party snow → Bool
  | .running _ => true
  | _ => false

@[simp]
theorem isRunning_running (task : ConnectionTask (NoiseHandler snow)) :
    (running task).isRunning = true := rfl

@[simp]
theorem isRunning_fresh (noise : NoiseHandler snow) : (fresh noise).isRunning = false := rfl

@[simp]
theorem isRunning_waiting (noise : NoiseHandler snow) : (waiting noise).isRunning = false := rfl

@[simp]
theorem isRunning_panicked : (panicked : Party snow).isRunning = false := rfl

/-- The task an end stands for: one that has not finished its handshake has not taken a step. -/
def task {key : Bool → snow.Key} (T : Transcript snow key) (role : Bool) :
    Party snow → ConnectionTask (NoiseHandler snow)
  | .running task => task
  | _ => T.ready role

end Party

namespace Session

variable {flexbuffers : Format B} {s s' : Session snow} {se : SessionEvent B}
  {key : Bool → snow.Key} (T : Transcript snow key)

/-- The session without its handshake messages.  Before an end runs, what has been written to it is
its handshake message and, once the other end runs, what that end has sent after it. -/
def channel (s : Session snow) : Channel snow where
  task role := (s.party role).task T role
  link role :=
    if (s.party role).isRunning then s.link role
    else if (s.party (!role)).isRunning then
      { s.link role with frames := (s.link role).frames.tail }
    else { s.link role with frames := [] }

/-- How far the handshake has come.  An end whose stream ends under it panics, and the other one goes
on as far as it can. -/
inductive Stage (s : Session snow) : Prop
  | fresh (hinitiator : s.party true = (start key).party true)
      (hresponder : s.party false = (start key).party false ∨ s.party false = .panicked)
      (hlinks : ∀ role, (s.link role).frames = []) : Stage s
  | greeted (hinitiator : s.party true = T.afterHello ∨ s.party true = .panicked)
      (hresponder : s.party false = (start key).party false ∨ s.party false = .panicked)
      (hdown : (s.link false).frames <+: [T.m1]) (hup : (s.link true).frames = []) : Stage s
  | answered (hinitiator : s.party true = T.afterHello ∨ s.party true = .panicked)
      (hresponder : s.party false = T.afterAnswer ∨ s.party false = .panicked)
      (hdown : (s.link false).frames = []) (hup : (s.link true).frames <+: [T.m2]) : Stage s
  | confirmed {task : ConnectionTask (NoiseHandler snow)} (hinitiator : s.party true = .running task)
      (hresponder : s.party false = T.afterAnswer ∨ s.party false = .panicked)
      (hdown : (∃ rest, (s.link false).frames = T.m3 :: rest) ∨
        (s.link false).frames = [] ∧ (s.link false).broken = true)
      (hup : (s.link true).frames = []) : Stage s
  | established {task task' : ConnectionTask (NoiseHandler snow)}
      (hinitiator : s.party true = .running task) (hresponder : s.party false = .running task') : Stage s

theorem stage_start : Stage T (start key) := .fresh rfl (Or.inl rfl) fun _ => rfl

theorem channel_start : (start key).channel T = Channel.start T.secret := rfl

/-- What the channel does in a step of the session: the same, or nothing. -/
def Follows (flexbuffers : Format B) (s : Session snow) (se : SessionEvent B) (s' : Session snow) :
    Prop :=
  ((∀ r, se.at? r = none) ∧ s'.channel T = s.channel T) ∨
    ∃ ce : ChannelEvent B, (∀ r, ce.at? r = se.at? r) ∧
      Channel.Stepped flexbuffers (s.channel T) ce (s'.channel T)

section Follows

variable {role : Bool} {inbox : Link B} {reached : Bool}

/-- What is written behind the third message is what is left when it has been read. -/
theorem push_tail {link : Link B} (hhead : link.broken = false → link.frames ≠ []) (frames : List B) :
    ({ link.push frames with frames := (link.push frames).frames.tail } : Link B) =
      Link.push { link with frames := link.frames.tail } frames := by
  cases hbroken : link.broken with
  | true => simp [Link.push, hbroken]
  | false =>
      obtain ⟨first, rest, hframes⟩ := List.exists_cons_of_ne_nil (hhead hbroken)
      simp [Link.push, hbroken, hframes]

/-- A step of a connection actor is a step of the channel. -/
theorem follows_running {task task' : ConnectionTask (NoiseHandler snow)} {i : Input B} {e : Event B}
    (hparty : s.party role = .running task)
    (hs : (ConnectionTask.machine flexbuffers).step task i = some (task', e))
    (hreads : Reads (s.link role) (.connection i) inbox)
    (hhead : (s.party (!role)).isRunning = false → (s.link (!role)).broken = false →
      (s.link (!role)).frames ≠ []) :
    Follows T flexbuffers s (.own role (.own e))
      (s.moved role (.running task') inbox (e.written reached)) := by
  have hinput : e.input = i := ConnectionTask.input_of_step hs
  refine Or.inr ⟨.own role e, fun r => rfl, .own reached rfl ?_ ?_ ?_ ?_ ?_ ?_⟩
  · simpa [channel, moved, hparty, Party.task] using ConnectionTask.stepped_of_step hs
  · simp [channel, moved]
  · intro frame hframe
    rw [hinput] at hframe
    subst hframe
    cases hreads with
    | kept hnot => exact absurd rfl (hnot _)
    | ended hitem => exact absurd rfl (hitem _)
    | read hframes => simpa [channel, moved, hparty] using hframes
  · intro hnone
    rw [hinput] at hnone
    cases hreads with
    | kept _ => simp [channel, moved, hparty]
    | ended _ => simp [channel, moved, hparty]
    | @read frame _ _ => exact absurd rfl (hnone frame)
  · cases hreads <;> simp [channel, moved, hparty]
  · cases hrunning : (s.party (!role)).isRunning with
    | true => simp [channel, moved, hrunning]
    | false =>
        have hpush := push_tail (hhead hrunning) (e.written reached)
        simpa [channel, moved, hrunning, hparty] using hpush

theorem tail_take (frames : List B) (kept : Nat) :
    (frames.take kept).tail = frames.tail.take (kept - 1) := by
  cases frames <;> cases kept <;> simp

/-- A break of the stream is a break of the channel. -/
theorem follows_cut (role : Bool) (kept : Nat) :
    Follows T flexbuffers s (.broke role kept)
      { s with link := Function.update s.link role ⟨(s.link role).frames.take kept, true⟩ } := by
  by_cases hown : (s.party role).isRunning = true
  · refine Or.inr ⟨.broke role kept, fun _ => rfl, .cut rfl rfl ?_ ?_⟩
    · simp [channel, hown]
    · simp [channel]
  · refine Or.inr ⟨.broke role (kept - 1), fun _ => rfl, .cut rfl rfl ?_ ?_⟩
    · by_cases hother : (s.party (!role)).isRunning = true
      · simp [channel, hown, hother, tail_take]
      · simp [channel, hown, hother]
    · simp [channel]

/-- A piece of a handshake leaves the channel alone. -/
theorem follows_handshake {i : PartyInput B} {written : List B} {p' : Party snow}
    (htask : p'.task T role = (s.party role).task T role)
    (hlink : ∀ r, ((s.moved role p' inbox written).channel T).link r = (s.channel T).link r) :
    Follows T flexbuffers s (.own role (.handshake i written)) (s.moved role p' inbox written) := by
  refine Or.inl ⟨fun _ => rfl, ?_⟩
  have htasks : ((s.moved role p' inbox written).channel T).task = (s.channel T).task := by
    funext r
    by_cases hr : r = role
    · subst hr
      simpa [channel, moved] using htask
    · simp [channel, moved, hr]
  have hlinks : ((s.moved role p' inbox written).channel T).link = (s.channel T).link := funext hlink
  calc (s.moved role p' inbox written).channel T
    _ = ⟨((s.moved role p' inbox written).channel T).task,
          ((s.moved role p' inbox written).channel T).link⟩ := rfl
    _ = s.channel T := by rw [htasks, hlinks]

end Follows

/-! ## Every step -/

/-- An end whose handshake panics was at the end of its stream. -/
def EndedUnder (s : Session snow) (se : SessionEvent B) (s' : Session snow) : Prop :=
  ∀ role, s'.party role = .panicked → s.party role = .panicked ∨
    ∃ item written, (∀ frame, item ≠ some (.frame frame)) ∧
      se = .own role (.handshake (.connection (.next item)) written)

/-- What a step of the session keeps, and what it does to the channel. -/
structure Kept (flexbuffers : Format B) (s : Session snow) (se : SessionEvent B) (s' : Session snow) :
    Prop where
  stage : Stage T s'
  follows : Follows T flexbuffers s se s'
  ended : EndedUnder s se s'

theorem push_frames (link : Link B) (frames : List B) :
    (link.push frames).frames = link.frames ++ frames ∨
      (link.push frames).frames = link.frames ∧ link.broken = true := by
  unfold Link.push
  split
  · next hbroken => exact Or.inr ⟨rfl, hbroken⟩
  · exact Or.inl rfl

@[simp]
theorem push_broken (link : Link B) (frames : List B) : (link.push frames).broken = link.broken := by
  unfold Link.push
  split <;> rfl

/-- A step at the end of a stream: whoever is in its handshake and reads panics. -/
theorem panicked_of_ended {role : Bool} {p p' : Party snow} {item : Option (Item B)} {written : List B}
    (hitem : ∀ frame, item ≠ some (.frame frame))
    (hs : (if role then p.stepInitiator (.connection (.next item))
      else p.stepResponder (.connection (.next item))) = some (p', written)) :
    p' = .panicked ∧ written = [] := by
  cases item with
  | none => cases role <;> cases p <;> simp_all [Party.stepInitiator, Party.stepResponder]
  | some item =>
      cases item with
      | frame bytes => exact absurd rfl (hitem bytes)
      | error => cases role <;> cases p <;> simp_all [Party.stepInitiator, Party.stepResponder]

theorem moved_self (role : Bool) (p : Party snow) (inbox : Link B) (frames : List B) :
    (s.moved role p inbox frames).party role = p := by
  simp [moved]

theorem moved_other (role : Bool) (p : Party snow) (inbox : Link B) (frames : List B) :
    (s.moved role p inbox frames).party (!role) = s.party (!role) := by
  simp [moved]

/-- An end that is in its handshake and reads the end of its stream. -/
theorem kept_ended {role : Bool} {item : Option (Item B)} {p' : Party snow} {written : List B}
    (hstage : Stage T s) (hitem : ∀ frame, item ≠ some (.frame frame))
    (hpiece : (if role then (s.party role).stepInitiator (.connection (.next item))
      else (s.party role).stepResponder (.connection (.next item))) = some (p', written)) :
    Kept T flexbuffers s (.own role (.handshake (.connection (.next item)) written))
      (s.moved role p' (s.link role) written) := by
  have hidle : (s.party role).isRunning = false := by
    cases hp : s.party role with
    | running task => cases role <;> simp [hp, Party.stepInitiator, Party.stepResponder] at hpiece
    | _ => rfl
  have htask : (s.party role).task T role = T.ready role := by
    cases hp : s.party role with
    | running task => simp [hp] at hidle
    | _ => rfl
  -- an initiator that has not spoken does not read
  have hspoken : role = true → s.party true ≠ (start key).party true := by
    rintro rfl hp
    simp [hp, start, Party.stepInitiator] at hpiece
  obtain ⟨rfl, rfl⟩ := panicked_of_ended hitem hpiece
  have hlink : (s.moved role .panicked (s.link role) []).link = s.link := by
    funext r
    by_cases hr : r = role <;> simp [moved, hr]
  refine ⟨?_, follows_handshake T htask.symm fun r => ?_, fun r hr => ?_⟩
  · cases hstage with
    | fresh hinitiator hresponder hlinks =>
        cases role with
        | true => exact absurd hinitiator (hspoken rfl)
        | false =>
            exact .fresh (by simpa [moved] using hinitiator) (by simp [moved])
              (by rw [hlink]; exact hlinks)
    | greeted hinitiator hresponder hdown hup =>
        refine .greeted ?_ ?_ (by rwa [hlink]) (by rwa [hlink]) <;>
          cases role <;> simp_all [moved]
    | answered hinitiator hresponder hdown hup =>
        refine .answered ?_ ?_ (by rwa [hlink]) (by rwa [hlink]) <;>
          cases role <;> simp_all [moved]
    | confirmed hinitiator hresponder hdown hup =>
        cases role with
        | true => simp [hinitiator] at hidle
        | false =>
            exact .confirmed (by simpa [moved] using hinitiator) (by simp [moved]) (by rwa [hlink])
              (by rwa [hlink])
    | established hinitiator hresponder =>
        cases role with
        | true => simp [hinitiator] at hidle
        | false => simp [hresponder] at hidle
  · by_cases hr : r = role
    · subst hr
      simp [channel, moved, hidle]
    · obtain rfl : r = !role := Bool.eq_not.mpr hr
      simp [channel, moved, hidle]
  · by_cases hside : r = role
    · subst hside
      exact Or.inr ⟨item, [], hitem, rfl⟩
    · left
      simpa [moved, hside] using hr

/-- Whoever goes on with its handshake has not panicked in it. -/
theorem endedUnder_of_ne {role : Bool} {p' : Party snow} {inbox : Link B} {frames : List B}
    (hp' : p' ≠ .panicked) : EndedUnder s se (s.moved role p' inbox frames) := by
  intro r hr
  by_cases hside : r = role
  · subst hside
    exact absurd (by simpa [moved] using hr) hp'
  · left
    simpa [moved, hside] using hr

/-- The initiator speaks. -/
theorem kept_hello (hinitiator : s.party true = (start key).party true)
    (hresponder : s.party false = (start key).party false ∨ s.party false = .panicked)
    (hlinks : ∀ role, (s.link role).frames = []) :
    Kept T flexbuffers s (.own true (.handshake .hello [T.m1]))
      (s.moved true T.afterHello (s.link true) [T.m1]) := by
  have hidle : (s.party false).isRunning = false := by
    rcases hresponder with h | h <;> simp [h, start]
  refine ⟨.greeted (by simp [moved]) (by simpa [moved] using hresponder) ?_ (by simpa [moved] using hlinks true),
    follows_handshake T (by simp [hinitiator, start, Transcript.afterHello, Party.task]) fun r => ?_,
    endedUnder_of_ne (by simp [Transcript.afterHello])⟩
  · rcases push_frames (s.link false) [T.m1] with h | ⟨h, -⟩ <;> simp [moved, h, hlinks]
  · cases r with
    | true => simp [channel, moved, hinitiator, hidle, start, Transcript.afterHello]
    | false => simp [channel, moved, hinitiator, hidle, start, Transcript.afterHello]

/-- The responder reads the first message and answers. -/
theorem kept_answer (hinitiator : s.party true = T.afterHello ∨ s.party true = .panicked)
    (hresponder : s.party false = (start key).party false) (hup : (s.link true).frames = []) :
    Kept T flexbuffers s (.own false (.handshake (.connection (.next (some (.frame T.m1)))) [T.m2]))
      (s.moved false T.afterAnswer { s.link false with frames := [] } [T.m2]) := by
  have hidle : (s.party true).isRunning = false := by
    rcases hinitiator with h | h <;> simp [h, Transcript.afterHello]
  refine ⟨.answered (by simpa [moved] using hinitiator) (by simp [moved]) (by simp [moved]) ?_,
    follows_handshake T (by simp [hresponder, start, Transcript.afterAnswer, Party.task]) fun r => ?_,
    endedUnder_of_ne (by simp [Transcript.afterAnswer])⟩
  · rcases push_frames (s.link true) [T.m2] with h | ⟨h, -⟩ <;> simp [moved, h, hup]
  · cases r with
    | true => simp [channel, moved, hresponder, hidle, start, Transcript.afterAnswer]
    | false => simp [channel, moved, hresponder, hidle, start, Transcript.afterAnswer]

/-- The initiator reads the answer, confirms it and starts its actor. -/
theorem kept_confirm (hinitiator : s.party true = T.afterHello)
    (hresponder : s.party false = T.afterAnswer ∨ s.party false = .panicked)
    (hdown : (s.link false).frames = []) :
    Kept T flexbuffers s (.own true (.handshake (.connection (.next (some (.frame T.m2)))) [T.m3]))
      (s.moved true (.running (T.ready true)) { s.link true with frames := [] } [T.m3]) := by
  have hidle : (s.party false).isRunning = false := by
    rcases hresponder with h | h <;> simp [h, Transcript.afterAnswer]
  refine ⟨.confirmed (moved_self _ _ _ _) (by simpa [moved] using hresponder) ?_ (by simp [moved]),
    follows_handshake T (by simp [hinitiator, Transcript.afterHello, Party.task]) fun r => ?_,
    endedUnder_of_ne (by simp)⟩
  · rcases push_frames (s.link false) [T.m3] with h | ⟨h, hbroken⟩
    · exact Or.inl ⟨[], by simp [moved, h, hdown]⟩
    · exact Or.inr ⟨by simp [moved, h, hdown], by simp [moved, hbroken]⟩
  · cases r with
    | true => simp [channel, moved, hinitiator, hidle, Transcript.afterHello]
    | false =>
        have hframes : ((s.link false).push [T.m3]).frames.tail = [] := by
          rcases push_frames (s.link false) [T.m3] with h | ⟨h, -⟩ <;> simp [h, hdown]
        simp [channel, moved, hinitiator, hidle, Transcript.afterHello, hframes]

/-- The responder reads the third message and starts its actor. -/
theorem kept_confirmed {task : ConnectionTask (NoiseHandler snow)} {rest : List B}
    (hinitiator : s.party true = .running task) (hresponder : s.party false = T.afterAnswer)
    (hdown : (s.link false).frames = T.m3 :: rest) :
    Kept T flexbuffers s (.own false (.handshake (.connection (.next (some (.frame T.m3)))) []))
      (s.moved false (.running (T.ready false)) { s.link false with frames := rest } []) := by
  refine ⟨.established ((moved_other _ _ _ _).trans hinitiator) (moved_self _ _ _ _),
    follows_handshake T (by simp [hresponder, Transcript.afterAnswer, Party.task]) fun r => ?_,
    endedUnder_of_ne (by simp)⟩
  cases r with
  | true => simp [channel, moved, hinitiator]
  | false => simp [channel, moved, hinitiator, hresponder, Transcript.afterAnswer, hdown]

/-- A piece of a handshake that does not read is the first message of the initiator. -/
theorem kept_unread {role : Bool} {i : PartyInput B} {p' : Party snow} {written : List B}
    (hstage : Stage T s) (hnot : ∀ item, i ≠ .connection (.next item))
    (hpiece : (if role then (s.party role).stepInitiator i else (s.party role).stepResponder i) =
      some (p', written)) :
    Kept T flexbuffers s (.own role (.handshake i written)) (s.moved role p' (s.link role) written) := by
  obtain ⟨noise, hfresh, rfl, rfl⟩ : ∃ noise, s.party role = .fresh noise ∧ role = true ∧ i = .hello := by
    cases hp : s.party role <;> cases role <;> rcases i with _ | (_ | item | _) <;>
      simp_all [Party.stepInitiator, Party.stepResponder]
  cases hstage with
  | fresh hinitiator hresponder hlinks =>
      obtain ⟨rfl, rfl⟩ : T.afterHello = p' ∧ [T.m1] = written := by
        simpa [hinitiator, start, Party.stepInitiator, NoiseHandler.patternMessages, T.hello_eq,
          Transcript.afterHello] using hpiece
      exact kept_hello T hinitiator hresponder hlinks
  | greeted hinitiator | answered hinitiator =>
      rcases hinitiator with h | h <;> simp [h, Transcript.afterHello] at hfresh
  | confirmed hinitiator => simp [hinitiator] at hfresh
  | established hinitiator => simp [hinitiator] at hfresh

theorem kept_read {role : Bool} {frame : B} {rest : List B} {p' : Party snow} {written : List B}
    (hstage : Stage T s) (hframes : (s.link role).frames = frame :: rest)
    (hpiece : (if role then (s.party role).stepInitiator (.connection (.next (some (.frame frame))))
      else (s.party role).stepResponder (.connection (.next (some (.frame frame))))) =
      some (p', written)) :
    Kept T flexbuffers s (.own role (.handshake (.connection (.next (some (.frame frame)))) written))
      (s.moved role p' { s.link role with frames := rest } written) := by
  cases hstage with
  | fresh hinitiator hresponder hlinks => simp [hlinks] at hframes
  | greeted hinitiator hresponder hdown hup =>
      cases role with
      | true => simp [hup] at hframes
      | false =>
          rcases hresponder with hresponder | hresponder
          · rw [hframes] at hdown
            obtain ⟨rfl, rfl⟩ : frame = T.m1 ∧ rest = [] := by simpa using hdown
            obtain ⟨rfl, rfl⟩ : T.afterAnswer = p' ∧ [T.m2] = written := by
              simpa [hresponder, start, Party.stepResponder, NoiseHandler.patternMessages, T.answer_eq,
                Transcript.afterAnswer] using hpiece
            exact kept_answer T hinitiator hresponder hup
          · simp [hresponder, Party.stepResponder] at hpiece
  | answered hinitiator hresponder hdown hup =>
      cases role with
      | false => simp [hdown] at hframes
      | true =>
          rcases hinitiator with hinitiator | hinitiator
          · rw [hframes] at hup
            obtain ⟨rfl, rfl⟩ : frame = T.m2 ∧ rest = [] := by simpa using hup
            obtain ⟨rfl, rfl⟩ : .running (T.ready true) = p' ∧ [T.m3] = written := by
              simpa [hinitiator, Transcript.afterHello, Party.stepInitiator, T.confirm_eq, T.started_eq]
                using hpiece
            exact kept_confirm T hinitiator hresponder hdown
          · simp [hinitiator, Party.stepInitiator] at hpiece
  | confirmed hinitiator hresponder hdown hup =>
      cases role with
      | true => simp [hup] at hframes
      | false =>
          rcases hresponder with hresponder | hresponder
          · rcases hdown with ⟨rest', hrest⟩ | ⟨hnil, -⟩
            · rw [hframes] at hrest
              obtain ⟨rfl, rfl⟩ := List.cons.inj hrest
              obtain ⟨rfl, rfl⟩ : .running (T.ready false) = p' ∧ [] = written := by
                simpa [hresponder, Transcript.afterAnswer, Party.stepResponder, T.confirmed_eq,
                  T.started_eq] using hpiece
              exact kept_confirmed T hinitiator hresponder hframes
            · simp [hnil] at hframes
          · simp [hresponder, Party.stepResponder] at hpiece
  | established hinitiator hresponder =>
      cases role with
      | true => simp [hinitiator, Party.stepInitiator] at hpiece
      | false => simp [hresponder, Party.stepResponder] at hpiece

/-- A step of a connection actor. -/
theorem kept_running {role : Bool} {task task' : ConnectionTask (NoiseHandler snow)} {i : Input B}
    {e : Event B} {inbox : Link B} {reached : Bool} (hstage : Stage T s)
    (hparty : s.party role = .running task)
    (hs : (ConnectionTask.machine flexbuffers).step task i = some (task', e))
    (hreads : Reads (s.link role) (.connection i) inbox) :
    Kept T flexbuffers s (.own role (.own e))
      (s.moved role (.running task') inbox (e.written reached)) := by
  have hother := moved_other (s := s) role (.running task') inbox (e.written reached)
  cases hstage with
  | fresh hinitiator hresponder hlinks =>
      cases role with
      | true => simp [hinitiator, start] at hparty
      | false => rcases hresponder with h | h <;> simp [h, start] at hparty
  | greeted hinitiator hresponder hdown hup =>
      cases role with
      | true => rcases hinitiator with h | h <;> simp [h, Transcript.afterHello] at hparty
      | false => rcases hresponder with h | h <;> simp [h, start] at hparty
  | answered hinitiator hresponder hdown hup =>
      cases role with
      | true => rcases hinitiator with h | h <;> simp [h, Transcript.afterHello] at hparty
      | false => rcases hresponder with h | h <;> simp [h, Transcript.afterAnswer] at hparty
  | confirmed hinitiator hresponder hdown hup =>
      cases role with
      | false => rcases hresponder with h | h <;> simp [h, Transcript.afterAnswer] at hparty
      | true =>
          refine ⟨.confirmed (moved_self _ _ _ _) (hother.symm ▸ hresponder) ?_ ?_,
            follows_running T hparty hs hreads fun _ hwhole => ?_, endedUnder_of_ne (by simp)⟩
          · -- the third message stays in front of what the initiator sends behind it
            rcases hdown with ⟨rest, hrest⟩ | ⟨hnil, hbroken⟩
            · rcases push_frames (s.link false) (e.written reached) with h | ⟨h, -⟩
              · exact Or.inl ⟨rest ++ e.written reached, by simp [moved, h, hrest]⟩
              · exact Or.inl ⟨rest, by simp [moved, h, hrest]⟩
            · exact Or.inr ⟨by simp [moved, Link.push, hbroken, hnil], by simp [moved, hbroken]⟩
          · cases hreads with
            | kept _ => simpa [moved] using hup
            | ended _ => simpa [moved] using hup
            | read hframes => simp [hup] at hframes
          · rcases hdown with ⟨rest, hrest⟩ | ⟨-, hbroken⟩
            · simp [hrest]
            · simp [hbroken] at hwhole
  | established hinitiator hresponder =>
      refine ⟨?_, follows_running T hparty hs hreads fun hidle => ?_, endedUnder_of_ne (by simp)⟩
      · cases role with
        | true => exact .established (moved_self _ _ _ _) (hother.trans hresponder)
        | false => exact .established (hother.trans hinitiator) (moved_self _ _ _ _)
      · cases role with
        | true => simp [hresponder] at hidle
        | false => simp [hinitiator] at hidle

/-- A break of the stream. -/
theorem kept_cut (hstage : Stage T s) (role : Bool) (kept : Nat) :
    Kept T flexbuffers s (.broke role kept)
      { s with link := Function.update s.link role ⟨(s.link role).frames.take kept, true⟩ } := by
  refine ⟨?_, follows_cut T role kept, fun _ hr => Or.inl hr⟩
  have hnil : ∀ r, (s.link r).frames = [] →
      (Function.update s.link role ⟨(s.link role).frames.take kept, true⟩ r).frames = [] := by
    intro r hframes
    by_cases hr : r = role
    · subst hr
      simp [hframes]
    · simp [hr, hframes]
  have hshorter : ∀ r l, (s.link r).frames <+: l →
      (Function.update s.link role ⟨(s.link role).frames.take kept, true⟩ r).frames <+: l := by
    intro r l hframes
    by_cases hr : r = role
    · subst hr
      simpa using (List.take_prefix _ _).trans hframes
    · simpa [hr] using hframes
  cases hstage with
  | fresh hinitiator hresponder hlinks =>
      exact .fresh hinitiator hresponder fun r => hnil r (hlinks r)
  | greeted hinitiator hresponder hdown hup =>
      exact .greeted hinitiator hresponder (hshorter _ _ hdown) (hnil _ hup)
  | answered hinitiator hresponder hdown hup =>
      exact .answered hinitiator hresponder (hnil _ hdown) (hshorter _ _ hup)
  | confirmed hinitiator hresponder hdown hup =>
      refine .confirmed hinitiator hresponder ?_ (hnil _ hup)
      cases role with
      | true => simpa using hdown
      | false =>
          rcases hdown with ⟨rest, hrest⟩ | ⟨hempty, -⟩
          · cases kept with
            | zero => exact Or.inr ⟨by simp, by simp⟩
            | succ kept => exact Or.inl ⟨rest.take kept, by simp [hrest]⟩
          · exact Or.inr ⟨by simp [hempty], by simp⟩
  | established hinitiator hresponder => exact .established hinitiator hresponder

/-- **Every step.** -/
theorem kept_of_step {i : SessionInput} (hstage : Stage T s)
    (hs : (machine flexbuffers).step s i = some (s', se)) : Kept T flexbuffers s se s' := by
  rcases step_cases hs with ⟨role, i', inbox, reached, p', pe, hstep, hreads, rfl, rfl⟩ |
    ⟨role, kept, rfl, rfl⟩
  · rcases party_cases hstep with ⟨task, task', i, e, hparty, rfl, rfl, rfl, hown⟩ |
      ⟨written, rfl, hpiece⟩
    · exact kept_running T hstage hparty hown hreads
    · cases hreads with
      | kept hnot => exact kept_unread T hstage hnot hpiece
      | ended hitem => exact kept_ended T hstage hitem hpiece
      | read hframes => exact kept_read T hstage hframes hpiece
  · exact kept_cut T hstage role kept

/-! ## Every run -/

/-- The messages an end took from its command channel, in order. -/
def taken (role : Bool) (tr : List (SessionEvent B)) : List ReliableNetworkMessage :=
  (tr.filterMap (SessionEvent.at? role)).filterMap Event.taken?

/-- The messages the subscriber of an end received, in order. -/
def received (role : Bool) (tr : List (SessionEvent B)) : List ReliableNetworkMessage :=
  (tr.filterMap (SessionEvent.at? role)).flatMap Event.delivered

/-- Every time in a message that is taken can be sent. -/
def SinceEpoch (se : SessionEvent B) : Prop :=
  ∀ role e data, se.at? role = some e → e.taken? = some data → data.SinceEpoch

/-- **What a session shows**: a FIFO channel in each direction under one secret; an end whose
handshake panicked read the end of its stream; and the responder does not start before the
initiator. -/
structure Secured (flexbuffers : Format B) (secret : snow.Secret) (tr : List (SessionEvent B))
    (s : Session snow) : Prop where
  inOrder : ∀ role, received role tr <+: taken (!role) tr
  sound : ∀ role e, .own role (.own e) ∈ tr → Channel.Sound flexbuffers secret role e
  ended : ∀ role, s.party role = .panicked → ∃ item written, (∀ frame, item ≠ some (.frame frame)) ∧
    .own role (.handshake (.connection (.next item)) written) ∈ tr
  initiatorFirst : (s.party false).isRunning = true → (s.party true).isRunning = true

/-- What every step keeps: the session follows a run of its channel. -/
structure Invariant (flexbuffers : Format B) (tr : List (SessionEvent B)) (s : Session snow) : Prop where
  stage : Stage T s
  follows : ∃ ctr, Channel.Invariant flexbuffers T.secret ctr (s.channel T) ∧
    ∀ role, ctr.filterMap (ChannelEvent.at? role) = tr.filterMap (SessionEvent.at? role)
  ended : ∀ role, s.party role = .panicked → ∃ item written, (∀ frame, item ≠ some (.frame frame)) ∧
    .own role (.handshake (.connection (.next item)) written) ∈ tr

variable {tr : List (SessionEvent B)}

theorem invariant_start : Invariant T flexbuffers [] (start key) := by
  refine ⟨stage_start T, ⟨[], ?_, fun _ => rfl⟩, by simp [start]⟩
  rw [channel_start]
  exact ⟨Channel.keyed_start, fun s r _ => Channel.flow_start s r, by simp⟩

theorem invariant_step (hinv : Invariant T flexbuffers tr s) (hkept : Kept T flexbuffers s se s')
    (hepoch : SinceEpoch se) : Invariant T flexbuffers (tr ++ [se]) s' := by
  obtain ⟨ctr, hchannel, hsame⟩ := hinv.follows
  refine ⟨hkept.stage, ?_, fun role hpanicked => ?_⟩
  · rcases hkept.follows with ⟨hnone, hchannel'⟩ | ⟨ce, hce, hstepped⟩
    · refine ⟨ctr, by rwa [hchannel'], fun role => ?_⟩
      simp [List.filterMap_append, hsame role, hnone role]
    · refine ⟨ctr ++ [ce], Channel.invariant_step hchannel hstepped ?_, fun role => ?_⟩
      · intro role e data hown htaken
        have hat : ce.at? role = some e := by simp [hown, ChannelEvent.at?]
        exact hepoch role e data ((hce role).symm.trans hat) htaken
      · simp [List.filterMap_append, hsame role, List.filterMap_cons, hce role]
  · rcases hkept.ended role hpanicked with hbefore | ⟨item, written, hitem, rfl⟩
    · obtain ⟨item, written, hitem, hmem⟩ := hinv.ended role hbefore
      exact ⟨item, written, hitem, List.mem_append_left _ hmem⟩
    · exact ⟨item, written, hitem, by simp⟩

/-- **A handshake of two honest ends gives a FIFO channel**, whatever the interleaving and wherever
the stream breaks: there is a secret, fixed by the keys, under which the two actors run.  No frame
that an actor takes carries a time before the Unix epoch; such a frame does not serialize, and the actor
panics on it. -/
theorem secured_of_run (flexbuffers : Format B)
    (agreement : Agreement snow.toSuite NoiseHandler.patternMessages) (key : Bool → snow.Key) :
    ∃ secret, ∀ tr s, (machine flexbuffers).RunWith (fun _ se => SinceEpoch se) (start key) tr s →
      Secured flexbuffers secret tr s := by
  obtain ⟨T⟩ := exists_transcript agreement key
  refine ⟨T.secret, fun tr s hrun => ?_⟩
  have hinv : Invariant T flexbuffers tr s := by
    refine hrun.invariant (invariant_start T) ?_
    intro tr s i s' se _ hinv hs hepoch
    exact invariant_step T hinv (kept_of_step T hinv.stage hs) hepoch
  obtain ⟨ctr, hchannel, hsame⟩ := hinv.follows
  refine ⟨fun role => ?_, fun role e hmem => ?_, hinv.ended, fun hrunning => ?_⟩
  · have hfifo := (hchannel.flow (!role) role rfl).inOrder
    simpa only [received, taken, Channel.received, Channel.taken, hsame] using hfifo
  · have hat : e ∈ ctr.filterMap (ChannelEvent.at? role) := by
      rw [hsame role]
      exact List.mem_filterMap.mpr ⟨_, hmem, by simp [SessionEvent.at?]⟩
    obtain ⟨ce, hce, hown⟩ := List.mem_filterMap.mp hat
    cases ce with
    | broke side kept => simp [ChannelEvent.at?] at hown
    | own side e' =>
        obtain ⟨rfl, rfl⟩ : side = role ∧ e' = e := by simpa [ChannelEvent.at?] using hown
        exact hchannel.sound _ _ hce
  · cases hinv.stage with
    | fresh _ hresponder => rcases hresponder with h | h <;> simp [h, start] at hrunning
    | greeted _ hresponder => rcases hresponder with h | h <;> simp [h, start] at hrunning
    | answered _ hresponder =>
        rcases hresponder with h | h <;> simp [h, Transcript.afterAnswer] at hrunning
    | confirmed hinitiator => simp [hinitiator]
    | established hinitiator => simp [hinitiator]

/-- The stand-in cryptography is correct: any text is read, and there is only one secret. -/
def transparentAgreement : Agreement Snow.transparent.toSuite NoiseHandler.patternMessages where
  Paired _ _ _ := True
  initial _ _ := trivial
  next payload _ := ⟨(), (.str payload, []), rfl, trivial⟩
  final _ := rfl

/-- The initiator sends its first message before the responder has read the end of the handshake. -/
def earlyMessage : List SessionInput :=
  [.hello, .receive false, .receive true, .command true (.send (.ack 1) 0) true false,
    .receive false, .command false (.send (.ack 7) 0) true false, .receive false,
    .forward false true, .receive true, .forward true true]

def noKeys (_ : Bool) : Snow.transparent.Key := ()

theorem secured_of_run_earlyMessage :
    ∃ tr s, (machine bareValues).exec (start noKeys) earlyMessage = some (s, tr) ∧
      received false tr = [.ack 1] ∧ received true tr = [.ack 7] ∧
      ∃ secret, Secured bareValues secret tr s := by
  have hexec : (machine bareValues).exec (start noKeys) earlyMessage = some (_, _) := rfl
  obtain ⟨secret, hsecured⟩ := secured_of_run bareValues transparentAgreement noKeys
  refine ⟨_, _, hexec, rfl, rfl, secret, hsecured _ _ ?_⟩
  apply Machine.RunWith.guarded (Machine.run_of_exec hexec)
  intro se hse role e data hat htaken
  -- only acknowledgements are taken, and they carry no time
  have hdata : data ∈ taken role _ :=
    List.mem_filterMap.mpr ⟨e, List.mem_filterMap.mpr ⟨se, hse, hat⟩, htaken⟩
  cases role with
  | true =>
      obtain rfl : data = .ack 1 := List.mem_singleton.mp hdata
      trivial
  | false =>
      obtain rfl : data = .ack 7 := List.mem_singleton.mp hdata
      trivial

end Session

end FrostFederation.Connection
