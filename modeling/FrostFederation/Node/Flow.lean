/-
# FrostFederation.Node.Flow — how broadcasts flow through a node.

A broadcast enters a node through a client channel or is originated by its main task, is carried by
a task to the queue of the actor, and leaves on the connections of its member map.  Nothing else
makes one.  So a property of broadcasts that holds of what comes in holds of everything the node
carries and of everything it sends (`carries_step`), and a property of the membership that holds
whenever a snapshot is taken holds of every member map on the way.  The federation's invariants are
instances of this one rule.

The node posts Sends only: `EchoBroadcastHandle::receive` has no caller.  So its actor never handles
an Echo, and no call of `EchoBroadcastHandle::send` ever returns `Ok` (`noOk_step`).
-/
import FrostFederation.Node.Model

namespace FrostFederation.Node

open FrostFederation.Lib
open FrostFederation.Protocol
open FrostFederation.EchoBroadcast (ReliableSenderMap EchoBroadcastActor EchoBroadcastMessage EchoTask)

variable {E : Type} [DecidableEq E] {calculateHash : String → MessageId}

/-! ## What one step can do -/

/-- The protocol answers a unicast with a unicast. -/
theorem unicast_of_call {nodeId : String} {state : State} {nanos : Nat} {m : Unicast}
    {reply : Message}
    (h : call calculateHash nodeId state nanos (.unicastMessage m) = .ok (some reply)) :
    ∃ u, reply = .unicastMessage u := by
  cases m with
  | ping m =>
      simp only [call, Ping.call] at h
      split at h
      · exact ⟨_, (Option.some.inj (Except.ok.inj h)).symm⟩
      · split at h
        · exact ⟨_, (Option.some.inj (Except.ok.inj h)).symm⟩
        · cases h
  | handshake m =>
      simp only [call, Handshake.call] at h
      split at h
      · exact ⟨_, (Option.some.inj (Except.ok.inj h)).symm⟩
      · split at h
        · cases h
        · exact ⟨_, (Option.some.inj (Except.ok.inj h)).symm⟩
  | heartbeat m =>
      simp only [call, Heartbeat.call] at h
      split at h
      · exact ⟨_, (Option.some.inj (Except.ok.inj h)).symm⟩
      · cases h
  | membership m =>
      simp only [call, Membership.call] at h
      split at h
      · exact ⟨_, (Option.some.inj (Except.ok.inj h)).symm⟩
      · cases h

omit [DecidableEq E] in
theorem unicast_of_reliableSendCall {node : Node E} {nanos : Nat} {e : E} {m : Unicast}
    {f : E × Message} (hf : f ∈ reliableSendCall calculateHash node nanos e (.unicastMessage m)) :
    ∃ u, f.2 = .unicastMessage u := by
  unfold reliableSendCall at hf
  split at hf
  · next reply hreply =>
      obtain ⟨u, hu⟩ := unicast_of_call hreply
      exact ⟨u, by rw [List.mem_singleton.mp hf, hu]⟩
  · cases hf

/-- One constructor for each way a step can go, with what it was enabled by. -/
inductive Stepped (calculateHash : String → MessageId) (node : Node E) :
    Input E → Event E → Node E → Prop
  | connected {e : E} {address : String} (habsent : node.jobs (.eventLoop e) = .absent) :
      Stepped calculateHash node (.connect e address) (.quiet (.connect e address))
        (node.startConnectionEventLoop e address)
  | registered {e : E} {address : String} (haddress : node.address e = some address) :
      Stepped calculateHash node (.register e) (.quiet (.register e)) (node.addMember address e)
  | arrived {e : E} {message : Message} :
      Stepped calculateHash node (.arrive e message) (.quiet (.arrive e message))
        { node with inbox := Function.update node.inbox e (node.inbox e ++ [message]) }
  | closed {e : E} :
      Stepped calculateHash node (.close e) (.quiet (.close e))
        { node with closed := Function.update node.closed e true }
  | answered {e : E} {m : Unicast} {rest : List Message} {nanos : Nat} {frames : List (E × Message)}
      (hinbox : node.inbox e = .unicastMessage m :: rest)
      (hframes : ∀ f ∈ frames, ∃ u, f.2 = .unicastMessage u) :
      Stepped calculateHash node (.receive e nanos) ⟨.receive e nanos, frames, none, none⟩
        { node with inbox := Function.update node.inbox e rest }
  | taken {e : E} {m : Broadcast} {rest : List Message} {nanos : Nat}
      (hphase : node.jobs (.eventLoop e) = .receiving)
      (hinbox : node.inbox e = .broadcastMessage m :: rest) :
      Stepped calculateHash node (.receive e nanos) (.quiet (.receive e nanos))
        { node with
          inbox := Function.update node.inbox e rest
          jobs := Function.update node.jobs (.eventLoop e)
            (.echoing m (.posting (.ofBroadcast m) node.members)) }
  | finished {e : E} {address : String} (hphase : node.jobs (.eventLoop e) = .receiving) :
      Stepped calculateHash node (.finish e) (.quiet (.finish e))
        ((node.removeMember address).setJob (.eventLoop e) .ended)
  | requested {e : E} {m : Unicast} {nanos : Nat} {frames : List (E × Message)}
      (hframes : ∀ f ∈ frames, ∃ u, f.2 = .unicastMessage u) :
      Stepped calculateHash node (.request e m nanos) ⟨.request e m nanos, frames, none, none⟩ node
  | originated {message : String} {nanos : Nat} :
      Stepped calculateHash node (.originate message nanos) (.quiet (.originate message nanos))
        { node with
          jobs := Function.update node.jobs (.service node.services)
            (.serving (.posting (.broadcastMessage (.roundOnePackage ⟨node.bindAddress, message⟩
              (some (node.messageIdGenerator.next calculateHash nanos)))) node.members))
          services := node.services + 1 }
  | posted {j : Job E} {nanos : Nat} {data : Message} {members : ReliableSenderMap E}
      (hphase : (node.jobs j).send? = some (.posting data members)) :
      Stepped calculateHash node (.post j nanos)
        ⟨.post j nanos, [], some (.send data members node.opened), none⟩
        { node with
          jobs := Function.update node.jobs j ((node.jobs j).setSend (.waiting node.opened))
          queue := node.queue ++ [.send data members node.opened]
          opened := node.opened + 1 }
  | refused {j : Job E} {nanos : Nat} {data : Message} {members : ReliableSenderMap E}
      (hphase : (node.jobs j).send? = some (.posting data members)) :
      Stepped calculateHash node (.post j nanos) (.quiet (.post j nanos))
        (node.setJob j (node.sendReturned calculateHash nanos j (.error "Connection error")))
  | woken {j : Job E} {nanos : Nat} {tx : Oneshot} {result : ConnectionResult}
      (hphase : (node.jobs j).send? = some (.waiting tx)) (hresult : node.results tx = some result) :
      Stepped calculateHash node (.wake j nanos) (.quiet (.wake j nanos))
        (node.setJob j (node.sendReturned calculateHash nanos j result))
  | timedOut {e : E} {send : SendPhase E} (hphase : node.jobs (.eventLoop e) = .serving send) :
      Stepped calculateHash node (.timeout e) (.quiet (.timeout e))
        (node.setJob (.eventLoop e) .receiving)
  | handled {reach : String → Bool} {command : EchoBroadcastMessage E}
      {rest : List (EchoBroadcastMessage E)} (hlive : node.actor.isSome = true)
      (hqueue : node.queue = command :: rest) :
      Stepped calculateHash node (.actor reach)
        ⟨.actor reach, sentFrames (node.handleCommand reach command rest).2.effects, none,
          some (node.handleCommand reach command rest).2⟩ (node.handleCommand reach command rest).1

/-- **Every step of a node is one of these.** -/
theorem stepped_of_step {node node' : Node E} {input : Input E} {ev : Event E}
    (hs : (machine calculateHash E).step node input = some (node', ev)) :
    Stepped calculateHash node input ev node' := by
  simp only [machine, step] at hs
  cases input with
  | connect e address =>
      simp only at hs
      split at hs
      · next habsent =>
          obtain ⟨rfl, rfl⟩ := Prod.mk.inj (Option.some.inj hs)
          exact .connected habsent
      · cases hs
  | register e =>
      obtain ⟨address, haddress, heq⟩ := Option.map_eq_some_iff.mp hs
      obtain ⟨rfl, rfl⟩ := Prod.mk.inj heq
      exact .registered haddress
  | arrive e message =>
      simp only at hs
      split at hs
      · obtain ⟨rfl, rfl⟩ := Prod.mk.inj (Option.some.inj hs)
        exact .arrived
      · cases hs
  | close e =>
      obtain ⟨rfl, rfl⟩ := Prod.mk.inj (Option.some.inj hs)
      exact .closed
  | receive e nanos =>
      simp only at hs
      split at hs
      · next message rest hphase hinbox =>
          obtain ⟨rfl, rfl⟩ := Prod.mk.inj (Option.some.inj hs)
          cases message with
          | unicastMessage m => exact .answered hinbox fun f hf => unicast_of_reliableSendCall hf
          | broadcastMessage m => exact .taken hphase hinbox
      · cases hs
  | finish e =>
      simp only at hs
      split at hs
      · next address hphase _ _ _ =>
          obtain ⟨rfl, rfl⟩ := Prod.mk.inj (Option.some.inj hs)
          exact .finished hphase
      · cases hs
  | request e message nanos =>
      obtain ⟨rfl, rfl⟩ := Prod.mk.inj (Option.some.inj hs)
      exact .requested fun f hf => unicast_of_reliableSendCall hf
  | originate message nanos =>
      simp only [echoBroadcastCall, call_new_package] at hs
      obtain ⟨rfl, rfl⟩ := Prod.mk.inj (Option.some.inj hs)
      exact .originated
  | post j nanos =>
      simp only at hs
      split at hs
      · next data members actor hphase _ =>
          split at hs
          · obtain ⟨rfl, rfl⟩ := Prod.mk.inj (Option.some.inj hs)
            exact .posted hphase
          · cases hs
      · next data members hphase _ =>
          obtain ⟨rfl, rfl⟩ := Prod.mk.inj (Option.some.inj hs)
          exact .refused hphase
      · cases hs
  | wake j nanos =>
      simp only at hs
      split at hs
      · next tx hphase =>
          obtain ⟨result, hresult, heq⟩ := Option.map_eq_some_iff.mp hs
          obtain ⟨rfl, rfl⟩ := Prod.mk.inj heq
          exact .woken hphase hresult
      · cases hs
  | timeout e =>
      simp only at hs
      split at hs
      · next send hphase =>
          obtain ⟨rfl, rfl⟩ := Prod.mk.inj (Option.some.inj hs)
          exact .timedOut hphase
      · cases hs
  | actor reach =>
      simp only at hs
      split at hs
      · next actor command rest hactor hqueue =>
          obtain ⟨rfl, rfl⟩ := Prod.mk.inj (Option.some.inj hs)
          exact .handled (by rw [hactor]; rfl) hqueue
      · cases hs

/-! ## As far as broadcasts are concerned -/

/-- The kinds of steps, as far as broadcasts are concerned. -/
inductive Change (calculateHash : String → MessageId) (node : Node E) (ev : Event E)
    (node' : Node E) : Prop
  /-- Connecting, registering, closing, cleaning up, a unicast request, a timeout. -/
  | control
      (hjobs : ∀ j, node'.jobs j = node.jobs j ∨
        ∃ e, j = .eventLoop e ∧ (node'.jobs j = .receiving ∨ node'.jobs j = .ended))
      (hinbox : node'.inbox = node.inbox) (hqueue : node'.queue = node.queue)
      (hopened : node'.opened = node.opened) (hactor : node'.actor = node.actor)
      (hresults : node'.results = node.results) (hservices : node'.services = node.services)
      (hinput : ∀ message nanos, ev.input ≠ .originate message nanos)
      (hframes : ∀ f ∈ ev.frames, ∃ u, f.2 = .unicastMessage u) (hhanded : ev.handed = none)
      (hprocessed : ev.processed = none) : Change calculateHash node ev node'
  | arrived {e : E} {message : Message} (hev : ev = .quiet (.arrive e message))
      (hnode : node' =
        { node with inbox := Function.update node.inbox e (node.inbox e ++ [message]) }) :
      Change calculateHash node ev node'
  | answered {e : E} {m : Unicast} {rest : List Message} {nanos : Nat}
      (hinput : ev.input = .receive e nanos) (hinbox : node.inbox e = .unicastMessage m :: rest)
      (hframes : ∀ f ∈ ev.frames, ∃ u, f.2 = .unicastMessage u) (hhanded : ev.handed = none)
      (hprocessed : ev.processed = none)
      (hnode : node' = { node with inbox := Function.update node.inbox e rest }) :
      Change calculateHash node ev node'
  | taken {e : E} {m : Broadcast} {rest : List Message} {nanos : Nat}
      (hev : ev = .quiet (.receive e nanos)) (hphase : node.jobs (.eventLoop e) = .receiving)
      (hinbox : node.inbox e = .broadcastMessage m :: rest)
      (hnode : node' =
        { node with
          inbox := Function.update node.inbox e rest
          jobs := Function.update node.jobs (.eventLoop e)
            (.echoing m (.posting (.ofBroadcast m) node.members)) }) :
      Change calculateHash node ev node'
  | originated {message : String} {nanos : Nat} (hev : ev = .quiet (.originate message nanos))
      (hnode : node' =
        { node with
          jobs := Function.update node.jobs (.service node.services)
            (.serving (.posting (.broadcastMessage (.roundOnePackage ⟨node.bindAddress, message⟩
              (some (node.messageIdGenerator.next calculateHash nanos)))) node.members))
          services := node.services + 1 }) : Change calculateHash node ev node'
  | posted {j : Job E} {nanos : Nat} {data : Message} {members : ReliableSenderMap E}
      (hinput : ev.input = .post j nanos)
      (hphase : (node.jobs j).send? = some (.posting data members))
      (hframes : ev.frames = []) (hhanded : ev.handed = some (.send data members node.opened))
      (hprocessed : ev.processed = none)
      (hnode : node' =
        { node with
          jobs := Function.update node.jobs j ((node.jobs j).setSend (.waiting node.opened))
          queue := node.queue ++ [.send data members node.opened]
          opened := node.opened + 1 }) : Change calculateHash node ev node'
  /-- A call of `EchoBroadcastHandle::send` returns. -/
  | sendReturned {j : Job E} {nanos : Nat} {send : SendPhase E} {result : ConnectionResult}
      (hphase : (node.jobs j).send? = some send)
      (hresult : result = .error "Connection error" ∨
        ∃ tx, send = .waiting tx ∧ node.results tx = some result)
      (hinput : ∀ message nanos, ev.input ≠ .originate message nanos)
      (hframes : ev.frames = []) (hhanded : ev.handed = none) (hprocessed : ev.processed = none)
      (hnode : node' = node.setJob j (node.sendReturned calculateHash nanos j result)) :
      Change calculateHash node ev node'
  | handled {reach : String → Bool} {command : EchoBroadcastMessage E}
      {rest : List (EchoBroadcastMessage E)} (hlive : node.actor.isSome = true)
      (hqueue : node.queue = command :: rest)
      (hev : ev = ⟨.actor reach, sentFrames (node.handleCommand reach command rest).2.effects, none,
        some (node.handleCommand reach command rest).2⟩)
      (hnode : node' = (node.handleCommand reach command rest).1) :
      Change calculateHash node ev node'

/-- An event loop that goes back to receiving, or ends, is no other job's business. -/
theorem control_update {jobs : Job E → Phase E} {e : E} {phase : Phase E}
    (hphase : phase = .receiving ∨ phase = .ended) (j : Job E) :
    Function.update jobs (.eventLoop e) phase j = jobs j ∨
      ∃ e', j = .eventLoop e' ∧ (Function.update jobs (.eventLoop e) phase j = .receiving ∨
        Function.update jobs (.eventLoop e) phase j = .ended) := by
  by_cases hj : j = .eventLoop e
  · subst hj
    rw [Function.update_self]
    exact Or.inr ⟨e, rfl, hphase⟩
  · exact Or.inl (Function.update_of_ne hj _ _)

theorem change_of_step {node node' : Node E} {input : Input E} {ev : Event E}
    (hs : (machine calculateHash E).step node input = some (node', ev)) :
    Change calculateHash node ev node' := by
  cases stepped_of_step hs with
  | connected _ =>
      exact .control (control_update (Or.inl rfl)) rfl rfl rfl rfl rfl rfl (by simp [Event.quiet])
        (by simp [Event.quiet]) rfl rfl
  | registered _ =>
      exact .control (fun _ => Or.inl rfl) rfl rfl rfl rfl rfl rfl (by simp [Event.quiet])
        (by simp [Event.quiet]) rfl rfl
  | arrived => exact .arrived rfl rfl
  | closed =>
      exact .control (fun _ => Or.inl rfl) rfl rfl rfl rfl rfl rfl (by simp [Event.quiet])
        (by simp [Event.quiet]) rfl rfl
  | answered hinbox hframes => exact .answered rfl hinbox hframes rfl rfl rfl
  | taken hphase hinbox => exact .taken rfl hphase hinbox rfl
  | finished _ =>
      exact .control (control_update (Or.inr rfl)) rfl rfl rfl rfl rfl rfl (by simp [Event.quiet])
        (by simp [Event.quiet]) rfl rfl
  | requested hframes =>
      exact .control (fun _ => Or.inl rfl) rfl rfl rfl rfl rfl rfl (by simp) hframes rfl rfl
  | originated => exact .originated rfl rfl
  | posted hphase => exact .posted rfl hphase rfl rfl rfl rfl
  | refused hphase =>
      exact .sendReturned hphase (Or.inl rfl) (by simp [Event.quiet]) rfl rfl rfl rfl
  | woken hphase hresult =>
      exact .sendReturned hphase (Or.inr ⟨_, rfl, hresult⟩) (by simp [Event.quiet]) rfl rfl rfl rfl
  | timedOut _ =>
      exact .control (control_update (Or.inl rfl)) rfl rfl rfl rfl rfl rfl (by simp [Event.quiet])
        (by simp [Event.quiet]) rfl rfl
  | handled hlive hqueue => exact .handled hlive hqueue rfl rfl

/-- Handling a command changes the actor, its queue and the results, and nothing else. -/
structure Untouched (node node' : Node E) : Prop where
  jobs : node'.jobs = node.jobs
  address : node'.address = node.address
  inbox : node'.inbox = node.inbox
  closed : node'.closed = node.closed
  members : node'.members = node.members
  opened : node'.opened = node.opened
  services : node'.services = node.services
  bindAddress : node'.bindAddress = node.bindAddress
  messageIdGenerator : node'.messageIdGenerator = node.messageIdGenerator

omit [DecidableEq E] in
theorem handleCommand_cases (node : Node E) (reach : String → Bool)
    (command : EchoBroadcastMessage E) (rest : List (EchoBroadcastMessage E)) :
    Untouched node (node.handleCommand reach command rest).1 ∧
      (node.handleCommand reach command rest).2 =
        (EchoTask.process node.actor reach command).2 ∧
      (node.handleCommand reach command rest).1.actor =
        (EchoTask.process node.actor reach command).1 ∧
      (node.handleCommand reach command rest).1.queue ⊆ rest ∧
      ∃ dropped : List Oneshot, (node.handleCommand reach command rest).1.results =
        ((EchoTask.process node.actor reach command).2.effects ++
          dropped.map EchoBroadcast.Effect.drop).foldl settle node.results := by
  unfold handleCommand
  cases hp : EchoTask.process node.actor reach command with
  | mk actor event =>
      cases actor with
      | none => exact ⟨⟨rfl, rfl, rfl, rfl, rfl, rfl, rfl, rfl, rfl⟩, rfl, rfl, List.nil_subset _, _, rfl⟩
      | some a =>
          exact ⟨⟨rfl, rfl, rfl, rfl, rfl, rfl, rfl, rfl, rfl⟩, rfl, rfl, List.Subset.refl _, [],
            by rw [List.map_nil, List.append_nil]⟩

/-! ## What a step keeps -/

/-- What every step leaves alone, and where an address, a member or an event loop can come from. -/
structure Kept (node : Node E) (input : Input E) (ev : Event E) (node' : Node E) : Prop where
  caused : ev.input = input
  bindAddress : node'.bindAddress = node.bindAddress
  messageIdGenerator : node'.messageIdGenerator = node.messageIdGenerator
  address : ∀ e x, node'.address e = some x → node.address e = some x ∨ input = .connect e x
  members : ∀ x e, node'.members.lookup x = some e →
    node.members.lookup x = some e ∨ node.address e = some x
  absent : ∀ e, node.jobs (.eventLoop e) = .absent →
    node'.jobs (.eventLoop e) = .absent ∨ ∃ x, input = .connect e x

omit [DecidableEq E] in
/-- A step that changes neither the addresses, nor the members, nor an absent event loop. -/
theorem kept_of_eq {node node' : Node E} {input : Input E} {ev : Event E} (hinput : ev.input = input)
    (hbind : node'.bindAddress = node.bindAddress)
    (hgen : node'.messageIdGenerator = node.messageIdGenerator)
    (haddress : node'.address = node.address) (hmembers : node'.members = node.members)
    (hjobs : ∀ e, node.jobs (.eventLoop e) = .absent → node'.jobs (.eventLoop e) = .absent) :
    Kept node input ev node' where
  caused := hinput
  bindAddress := hbind
  messageIdGenerator := hgen
  address := fun e x h => Or.inl (by rw [← haddress]; exact h)
  members := fun x e h => Or.inl (by rw [← hmembers]; exact h)
  absent := fun e h => Or.inl (hjobs e h)

/-- A job that is not absent can be updated without touching an absent one. -/
theorem absent_update {jobs : Job E → Phase E} {j : Job E} (hj : jobs j ≠ .absent) (phase : Phase E)
    {j' : Job E} (hj' : jobs j' = .absent) : Function.update jobs j phase j' = .absent := by
  rwa [Function.update_of_ne]
  rintro rfl
  exact hj hj'

theorem kept_of_step {node node' : Node E} {input : Input E} {ev : Event E}
    (hs : (machine calculateHash E).step node input = some (node', ev)) :
    Kept node input ev node' := by
  have hsend : ∀ {j send}, (node.jobs j).send? = some send → node.jobs j ≠ .absent := by
    intro j send hphase habsent
    simp [habsent, Phase.send?] at hphase
  cases stepped_of_step hs with
  | @connected e address habsent =>
      refine ⟨rfl, rfl, rfl, ?_, fun x e' h => Or.inl h, ?_⟩
      · intro e' x h
        by_cases he : e' = e
        · subst he
          have hx : some address = some x := by simpa [startConnectionEventLoop] using h
          exact Or.inr (by rw [Option.some.inj hx])
        · exact Or.inl (by simpa [startConnectionEventLoop, setJob, he] using h)
      · intro e' h
        by_cases he : e' = e
        · exact Or.inr ⟨address, by rw [he]⟩
        · exact Or.inl (by simpa [startConnectionEventLoop, setJob, he] using h)
  | @registered e address haddress =>
      refine ⟨rfl, rfl, rfl, fun e' x h => Or.inl h, ?_, fun e' h => Or.inl h⟩
      intro x e' h
      simp only [addMember, HashMap.lookup_insert_eq_ite] at h
      split at h
      · next hx =>
          obtain rfl := Option.some.inj h
          exact Or.inr (by rw [hx]; exact haddress)
      · exact Or.inl h
  | arrived => exact kept_of_eq rfl rfl rfl rfl rfl fun _ h => h
  | closed => exact kept_of_eq rfl rfl rfl rfl rfl fun _ h => h
  | answered _ _ => exact kept_of_eq rfl rfl rfl rfl rfl fun _ h => h
  | taken hphase _ =>
      exact kept_of_eq rfl rfl rfl rfl rfl fun _ h => absent_update (by simp [hphase]) _ h
  | finished hphase =>
      refine ⟨rfl, rfl, rfl, fun e' x h => Or.inl h, ?_,
        fun e' h => Or.inl (absent_update (by simp [removeMember, hphase]) _ h)⟩
      intro x e' h
      simp only [setJob, removeMember, HashMap.lookup_erase_eq_ite] at h
      split at h
      · cases h
      · exact Or.inl h
  | requested _ => exact kept_of_eq rfl rfl rfl rfl rfl fun _ h => h
  | originated =>
      refine kept_of_eq rfl rfl rfl rfl rfl fun e h => ?_
      simpa [Function.update_of_ne] using h
  | posted hphase =>
      exact kept_of_eq rfl rfl rfl rfl rfl fun _ h => absent_update (hsend hphase) _ h
  | refused hphase =>
      exact kept_of_eq rfl rfl rfl rfl rfl fun _ h => absent_update (hsend hphase) _ h
  | woken hphase _ =>
      exact kept_of_eq rfl rfl rfl rfl rfl fun _ h => absent_update (hsend hphase) _ h
  | timedOut hphase =>
      exact kept_of_eq rfl rfl rfl rfl rfl fun _ h => absent_update (by simp [hphase]) _ h
  | @handled reach command rest _ _ =>
      have huntouched := (handleCommand_cases node reach command rest).1
      exact kept_of_eq rfl huntouched.bindAddress huntouched.messageIdGenerator
        huntouched.address huntouched.members fun e h => by rw [huntouched.jobs]; exact h

/-! ## What the actor does with a Send -/

section Sends

variable {a a' : EchoBroadcastActor E} {reach : String → Bool} {data : Message}
  {members : ReliableSenderMap E} {tx : Oneshot}

omit [DecidableEq E] in
/-- Handling a Send is a step of the task of the actor. -/
theorem step_of_process (actor : Option (EchoBroadcastActor E)) (reach : String → Bool)
    (data : Message) (members : ReliableSenderMap E) (tx : Oneshot) :
    (EchoTask.machine E).step ⟨actor, tx⟩ (.send data members reach) =
      some (⟨(EchoTask.process actor reach (.send data members tx)).1, tx + 1⟩,
        (EchoTask.process actor reach (.send data members tx)).2) :=
  rfl

omit [DecidableEq E] in
/-- A Send reaches members of its own member map with its own data, and never answers `Ok`. -/
theorem effect_of_send {effect : EchoBroadcast.Effect E}
    (h : effect ∈ (EchoTask.process (some a) reach (.send data members tx)).2.effects) :
    (∃ x e ok, effect = .reliableSend x e data ok ∧ members.lookup x = some e) ∨
      (∃ tx' text, effect = .respond tx' (.error text)) ∨ ∃ tx', effect = .drop tx' := by
  cases hp : EchoTask.process (some a) reach (.send data members tx) with
  | mk actor event =>
  have hs := step_of_process (some a) reach data members tx
  rw [hp] at h hs
  have hcmd : event.command = .send data members tx := (EchoTask.opened_of_step hs).2
  cases actor with
  | none =>
      -- the task is gone: all that is left of its senders is dropped
      unfold EchoTask.process at hp
      cases hh : a.handleMessage reach (.send data members tx) with
      | some r => simp [hh] at hp
      | none =>
          simp only [hh, Prod.mk.injEq] at hp
          rw [← hp.2] at h
          obtain ⟨tx', -, rfl⟩ := List.mem_map.mp h
          exact Or.inr (Or.inr ⟨tx', rfl⟩)
  | some a' =>
      obtain ⟨b, -, hh⟩ := EchoTask.handled_cases hs rfl
      obtain ⟨m, sent, -, hsent, ⟨-, -, heff⟩ | ⟨-, -, heff, -⟩⟩ := hh.of_send hcmd
      · rw [heff] at h
        rcases List.mem_append.mp h with hmem | hmem
        · exact Or.inl (hsent effect hmem)
        · exact Or.inr (Or.inl ⟨_, _, List.mem_singleton.mp hmem⟩)
      · rw [heff] at h
        rcases List.mem_append.mp h with hmem | hmem
        · exact Or.inl (hsent effect hmem)
        · obtain ⟨tx', -, heq⟩ := Option.map_eq_some_iff.mp (Option.mem_toList.mp hmem)
          exact Or.inr (Or.inr ⟨tx', heq.symm⟩)

omit [DecidableEq E] in
/-- What goes out for a Send is its own data, on connections of its own member map. -/
theorem frame_of_send {f : E × Message}
    (hf : f ∈ sentFrames (EchoTask.process (some a) reach (.send data members tx)).2.effects) :
    f.2 = data ∧ ∃ x, members.lookup x = some f.1 := by
  obtain ⟨effect, hmem, heq⟩ := List.mem_filterMap.mp hf
  rcases effect_of_send hmem with ⟨x, e, ok, rfl, hl⟩ | ⟨tx', text, rfl⟩ | ⟨tx', rfl⟩
  · obtain rfl : (e, data) = f := Option.some.inj heq
    exact ⟨rfl, x, hl⟩
  · cases heq
  · cases heq

omit [DecidableEq E] in
theorem sentFrames_drop (txs : List Oneshot) :
    sentFrames (txs.map (EchoBroadcast.Effect.drop (H := E))) = [] := by
  induction txs with
  | nil => rfl
  | cons tx txs ih => exact ih

omit [DecidableEq E] in
theorem sentFrames_append (effects effects' : List (EchoBroadcast.Effect E)) :
    sentFrames (effects ++ effects') = sentFrames effects ++ sentFrames effects' :=
  List.filterMap_append

omit [DecidableEq E] in
/-- When all members have been sent to, nothing more is written. -/
theorem sentFrames_completeSend {messageId : MessageId} {dropped : List (EchoBroadcast.Effect E)}
    (h : a.completeSend data messageId members tx = some (a', dropped)) : sentFrames dropped = [] := by
  unfold EchoBroadcastActor.completeSend at h
  split at h
  · cases h
  · cases h
    cases a.messageClientTxs.lookup messageId <;> rfl

omit [DecidableEq E] in
/-- An Echo is answered to the client, and sent to nobody. -/
theorem sentFrames_handleReceivedEcho {effects : List (EchoBroadcast.Effect E)}
    (h : a.handleReceivedEcho data = some (a', effects)) : sentFrames effects = [] := by
  unfold EchoBroadcastActor.handleReceivedEcho at h
  split at h
  · cases h
  · simp only at h
    split at h
    · cases h
    · cases h
      rfl
    · cases h
      split <;> rfl

omit [DecidableEq E] in
/-- Reliable sends settle no call. -/
theorem foldl_settle_onlySends {data : Message} {members : ReliableSenderMap E}
    {sent : List (EchoBroadcast.Effect E)} (hsent : EchoTask.OnlySends data members sent)
    (results : Oneshot → Option ConnectionResult) : sent.foldl settle results = results := by
  induction sent with
  | nil => rfl
  | cons effect sent ih =>
      obtain ⟨x, e, ok, rfl, -⟩ := hsent effect List.mem_cons_self
      exact ih fun effect' hmem => hsent effect' (List.mem_cons_of_mem _ hmem)

end Sends

/-- Only a handled command touches the actor. -/
theorem actor_cases {node node' : Node E} {ev : Event E}
    (hchange : Change calculateHash node ev node') :
    (ev.processed = none ∧ node'.actor = node.actor) ∨
      ∃ reach command rest a, node.actor = some a ∧ node.queue = command :: rest ∧
        ev.processed = some (EchoTask.process (some a) reach command).2 ∧
        node'.actor = (EchoTask.process (some a) reach command).1 := by
  cases hchange with
  | control _ _ _ _ hactor _ _ _ _ _ hprocessed => exact Or.inl ⟨hprocessed, hactor⟩
  | arrived hev hnode => exact Or.inl (by rw [hev, hnode]; exact ⟨rfl, rfl⟩)
  | answered _ _ _ _ hprocessed hnode => exact Or.inl ⟨hprocessed, by rw [hnode]⟩
  | taken hev _ _ hnode => exact Or.inl (by rw [hev, hnode]; exact ⟨rfl, rfl⟩)
  | originated hev hnode => exact Or.inl (by rw [hev, hnode]; exact ⟨rfl, rfl⟩)
  | posted _ _ _ _ hprocessed hnode => exact Or.inl ⟨hprocessed, by rw [hnode]⟩
  | sendReturned _ _ _ _ _ hprocessed hnode => exact Or.inl ⟨hprocessed, by rw [hnode]; rfl⟩
  | @handled reach command rest hlive hqueue hev hnode =>
      obtain ⟨a, ha⟩ := Option.isSome_iff_exists.mp hlive
      obtain ⟨-, hevent, hactor, -⟩ := handleCommand_cases node reach command rest
      refine Or.inr ⟨reach, command, rest, a, ha, hqueue, ?_, ?_⟩
      · rw [hev, ← ha, ← hevent]
      · rw [hnode, ← ha, ← hactor]

/-! ## Everything a node carries -/

section Carries

variable (P : Message → Prop) (Q : ReliableSenderMap E → Prop)

/-- A call carries its data and its member map until they are posted. -/
def SendPhase.Carries : SendPhase E → Prop
  | .posting data members => P data ∧ Q members
  | .waiting _ => True

/-- An event loop also keeps the broadcast it is responding to. -/
def Phase.Carries : Phase E → Prop
  | .echoing message send => P (.broadcastMessage message) ∧ send.Carries P Q
  | .serving send => send.Carries P Q
  | _ => True

/-- A command that is a Send of data with `P` to a member map with `Q`. -/
def SendsOnly (command : EchoBroadcastMessage E) : Prop :=
  ∃ data members tx, command = .send data members tx ∧ P data ∧ Q members

/-- Every broadcast in the node has `P`, and every member map on the way has `Q`. -/
structure Carries (node : Node E) : Prop where
  inbox : ∀ e m, .broadcastMessage m ∈ node.inbox e → P (.broadcastMessage m)
  jobs : ∀ j, (node.jobs j).Carries P Q
  queue : ∀ command ∈ node.queue, SendsOnly P Q command

/-- A step that takes a snapshot of the membership for a broadcast. -/
def Snapshots (node : Node E) (ev : Event E) : Prop :=
  (∃ message nanos, ev.input = .originate message nanos) ∨
    ∃ e nanos m rest, ev.input = .receive e nanos ∧
      node.inbox e = .broadcastMessage m :: rest

/-- The package a node originates. -/
def newPackage (calculateHash : String → MessageId) (node : Node E) (message : String)
    (nanos : Nat) : Message :=
  .broadcastMessage (.roundOnePackage ⟨node.bindAddress, message⟩
    (some (node.messageIdGenerator.next calculateHash nanos)))

/-- What comes into the node with this step has `P` and `Q`. -/
structure Admits (calculateHash : String → MessageId) (node : Node E) (ev : Event E) : Prop where
  arrive : ∀ e m, ev.input = .arrive e (.broadcastMessage m) → P (.broadcastMessage m)
  originate : ∀ message nanos, ev.input = .originate message nanos →
    P (newPackage calculateHash node message nanos)
  snapshot : Snapshots node ev → Q node.members

/-- What goes out of the node with this step has `P` and `Q`. -/
structure Emits (ev : Event E) : Prop where
  handed : ∀ command, ev.handed = some command → SendsOnly P Q command
  processed : ∀ event, ev.processed = some event → SendsOnly P Q event.command
  frames : ∀ f ∈ ev.frames, (∃ u, f.2 = .unicastMessage u) ∨
    (P f.2 ∧ ∃ members x, Q members ∧ members.lookup x = some f.1)

variable {P Q}

section Mono

variable {P' : Message → Prop} (hPP' : ∀ data, P data → P' data)

omit [DecidableEq E] in
include hPP' in
theorem SendPhase.Carries.mono {send : SendPhase E} (h : send.Carries P Q) : send.Carries P' Q := by
  cases send with
  | posting data members => exact ⟨hPP' data h.1, h.2⟩
  | waiting tx => trivial

omit [DecidableEq E] in
include hPP' in
theorem SendsOnly.mono {command : EchoBroadcastMessage E} (h : SendsOnly P Q command) :
    SendsOnly P' Q command := by
  obtain ⟨data, members, tx, heq, hdata, hmembers⟩ := h
  exact ⟨data, members, tx, heq, hPP' data hdata, hmembers⟩

omit [DecidableEq E] in
include hPP' in
theorem Carries.mono {node : Node E} (h : Carries P Q node) : Carries P' Q node where
  inbox := fun e m hm => hPP' _ (h.inbox e m hm)
  jobs := by
    intro j
    have hj := h.jobs j
    revert hj
    cases node.jobs j with
    | echoing message send => exact fun hj => ⟨hPP' _ hj.1, hj.2.mono hPP'⟩
    | serving send => exact fun hj => SendPhase.Carries.mono hPP' hj
    | absent => exact fun _ => trivial
    | receiving => exact fun _ => trivial
    | returned result => exact fun _ => trivial
    | ended => exact fun _ => trivial
  queue := fun command hmem => (h.queue command hmem).mono hPP'

omit [DecidableEq E] in
include hPP' in
theorem Emits.mono {ev : Event E} (h : Emits P Q ev) : Emits P' Q ev where
  handed := fun command hc => (h.handed command hc).mono hPP'
  processed := fun event he => (h.processed event he).mono hPP'
  frames := fun f hf => (h.frames f hf).imp id fun hdata => ⟨hPP' _ hdata.1, hdata.2⟩

end Mono

omit [DecidableEq E] in
/-- A step that shows nothing emits nothing. -/
theorem emits_quiet (input : Input E) : Emits P Q (.quiet input) where
  handed := by
    intro command h
    cases h
  processed := by
    intro event h
    cases h
  frames := by
    intro f hf
    cases hf

omit [DecidableEq E] in
/-- After a call of `EchoBroadcastHandle::send` returns, so does the service: a broadcast that has a
message id is not served again. -/
theorem sendReturned_of_identified (calculateHash : String → MessageId) {node : Node E} {j : Job E}
    (hid : ∀ message send, node.jobs j = .echoing message send →
      (Message.broadcastMessage message).getMessageId ≠ none)
    {send : SendPhase E} (hphase : (node.jobs j).send? = some send) (nanos : Nat)
    (result : ConnectionResult) :
    ∃ r, node.sendReturned calculateHash nanos j result = serviceReturned r j := by
  unfold sendReturned
  cases hphase' : node.jobs j with
  | echoing message send' =>
      obtain ⟨mid, hmid⟩ := Option.ne_none_iff_exists'.mp (hid message send' hphase')
      have hcall : echoBroadcastCall calculateHash node nanos (.ofBroadcast message) =
          .error "Unknown message type in echo broadcast handle" := by
        unfold echoBroadcastCall
        rw [Message.ofBroadcast_eq, call_of_getMessageId _ _ _ _ hmid]
      simp only [hcall]
      exact ⟨_, rfl⟩
  | serving send' => cases result <;> exact ⟨_, rfl⟩
  | absent => simp [hphase', Phase.send?] at hphase
  | receiving => simp [hphase', Phase.send?] at hphase
  | returned r => simp [hphase', Phase.send?] at hphase
  | ended => simp [hphase', Phase.send?] at hphase

omit [DecidableEq E] in
/-- The message an event loop responds to. -/
theorem Carries.echoing {node : Node E} (hc : Carries P Q node) {j : Job E} {message : Broadcast}
    {send : SendPhase E} (hphase : node.jobs j = .echoing message send) :
    P (.broadcastMessage message) := by
  have hj := hc.jobs j
  rw [hphase] at hj
  exact hj.1

omit [DecidableEq E] in
theorem carries_sendReturned
    (hP : ∀ m, P (.broadcastMessage m) → (Message.broadcastMessage m).getMessageId ≠ none)
    {node : Node E} (hc : Carries P Q node) (nanos : Nat) (j : Job E) {send : SendPhase E}
    (hphase : (node.jobs j).send? = some send) (result : ConnectionResult) :
    (node.sendReturned calculateHash nanos j result).Carries P Q := by
  obtain ⟨r, heq⟩ := sendReturned_of_identified calculateHash
    (fun message _ hecho => hP message (hc.echoing hecho)) hphase nanos result
  rw [heq]
  cases j <;> trivial

/-- What is left in the client channels after a message is taken was there before. -/
theorem mem_of_mem_update {inbox : E → List Message} {e e' : E} {message m : Message}
    {rest : List Message} (hinbox : inbox e = message :: rest)
    (hm : m ∈ Function.update inbox e rest e') : m ∈ inbox e' := by
  by_cases he : e' = e
  · rw [he] at hm ⊢
    rw [Function.update_self] at hm
    rw [hinbox]
    exact List.mem_cons_of_mem _ hm
  · rwa [Function.update_of_ne he] at hm

/-- One changed job carries what it should, and so does the node. -/
theorem carries_update {node : Node E} (hc : Carries P Q node) {j : Job E} {phase : Phase E}
    (hphase : phase.Carries P Q) (j' : Job E) :
    (Function.update node.jobs j phase j').Carries P Q :=
  (Function.forall_update_iff node.jobs fun _ phase => phase.Carries P Q).mpr
    ⟨hphase, fun j _ => hc.jobs j⟩ j'

omit [DecidableEq E] in
/-- A task that has posted its command carries no data any more. -/
theorem carries_setSend {phase : Phase E} (hc : phase.Carries P Q) (tx : Oneshot) :
    (phase.setSend (.waiting tx)).Carries P Q := by
  cases phase with
  | echoing message send => exact ⟨hc.1, trivial⟩
  | serving send => trivial
  | absent => trivial
  | receiving => trivial
  | returned r => trivial
  | ended => trivial

omit [DecidableEq E] in
/-- The data a task is about to post. -/
theorem carries_posting {phase : Phase E} (hc : phase.Carries P Q) {data : Message}
    {members : ReliableSenderMap E} (hphase : phase.send? = some (.posting data members)) :
    P data ∧ Q members := by
  cases phase with
  | echoing message send =>
      obtain rfl : send = .posting data members := Option.some.inj hphase
      exact hc.2
  | serving send =>
      obtain rfl : send = .posting data members := Option.some.inj hphase
      exact hc
  | absent => cases hphase
  | receiving => cases hphase
  | returned r => cases hphase
  | ended => cases hphase

section Handled

variable {node : Node E} {reach : String → Bool} {command : EchoBroadcastMessage E}
  {rest : List (EchoBroadcastMessage E)}

omit [DecidableEq E] in
/-- What the actor leaves in its queue was there before. -/
theorem mem_queue_of_handleCommand {command' : EchoBroadcastMessage E}
    (hqueue : node.queue = command :: rest)
    (hmem : command' ∈ (node.handleCommand reach command rest).1.queue) : command' ∈ node.queue := by
  obtain ⟨-, -, -, hrest, -⟩ := handleCommand_cases node reach command rest
  rw [hqueue]
  exact List.mem_cons_of_mem _ (hrest hmem)

omit [DecidableEq E] in
theorem carries_handled (hc : Carries P Q node) (hqueue : node.queue = command :: rest) :
    Carries P Q (node.handleCommand reach command rest).1 := by
  have huntouched := (handleCommand_cases node reach command rest).1
  refine ⟨?_, ?_, fun command' hmem => hc.queue command' (mem_queue_of_handleCommand hqueue hmem)⟩
  · rw [huntouched.inbox]
    exact hc.inbox
  · rw [huntouched.jobs]
    exact hc.jobs

omit [DecidableEq E] in
/-- The actor handles a Send of the queue and sends its data to the members of that Send. -/
theorem emits_handled (hc : Carries P Q node) (hlive : node.actor.isSome = true)
    (hqueue : node.queue = command :: rest) :
    Emits P Q ⟨.actor reach, sentFrames (node.handleCommand reach command rest).2.effects, none,
      some (node.handleCommand reach command rest).2⟩ := by
  obtain ⟨-, hevent, -⟩ := handleCommand_cases node reach command rest
  have hcommand : SendsOnly P Q command := hc.queue command (by rw [hqueue]; exact List.mem_cons_self)
  obtain ⟨data, members, tx, rfl, hdata, hmembers⟩ := hcommand
  obtain ⟨a, ha⟩ := Option.isSome_iff_exists.mp hlive
  refine ⟨by simp, ?_, ?_⟩
  · intro event heq
    obtain rfl := Option.some.inj heq
    have hs := step_of_process node.actor reach data members tx
    refine ⟨data, members, tx, ?_, hdata, hmembers⟩
    rw [hevent]
    exact (EchoTask.opened_of_step hs).2
  · intro f hf
    simp only [hevent, ha] at hf
    obtain ⟨hf₂, x, hl⟩ := frame_of_send hf
    rw [hf₂]
    exact Or.inr ⟨hdata, members, x, hmembers, hl⟩

end Handled

/-- **The flow rule.**  If what comes in has `P` and `Q`, so has everything the node carries and
everything that goes out. -/
theorem carries_step
    (hP : ∀ m, P (.broadcastMessage m) → (Message.broadcastMessage m).getMessageId ≠ none)
    {node node' : Node E} {ev : Event E} (hc : Carries P Q node)
    (hchange : Change calculateHash node ev node') (hin : Admits P Q calculateHash node ev) :
    Carries P Q node' ∧ Emits P Q ev := by
  cases hchange with
  | control hjobs hinbox hqueue hopened hactor hresults hservices hinput hframes hhanded hprocessed =>
      refine ⟨⟨by rw [hinbox]; exact hc.inbox, ?_, by rw [hqueue]; exact hc.queue⟩,
        ⟨by simp [hhanded], by simp [hprocessed], fun f hf => Or.inl (hframes f hf)⟩⟩
      intro j
      rcases hjobs j with heq | ⟨e, -, heq | heq⟩
      · rw [heq]
        exact hc.jobs j
      · rw [heq]
        trivial
      · rw [heq]
        trivial
  | @arrived e message hev hnode =>
      subst hev hnode
      refine ⟨⟨?_, hc.jobs, hc.queue⟩, emits_quiet _⟩
      intro e' m hm
      by_cases he : e' = e
      · rw [he] at hm
        simp only [Function.update_self] at hm
        rcases List.mem_append.mp hm with hold | hnew
        · exact hc.inbox e m hold
        · obtain rfl := List.mem_singleton.mp hnew
          exact hin.arrive e m rfl
      · simp only [Function.update_of_ne he] at hm
        exact hc.inbox e' m hm
  | @answered e u rest nanos hinput hinbox hframes hhanded hprocessed hnode =>
      subst hnode
      refine ⟨⟨?_, hc.jobs, hc.queue⟩,
        ⟨by simp [hhanded], by simp [hprocessed], fun f hf => Or.inl (hframes f hf)⟩⟩
      exact fun e' m hm => hc.inbox e' m (mem_of_mem_update hinbox hm)
  | @taken e m rest nanos hev hphase hinbox hnode =>
      subst hev hnode
      have hm : P (.broadcastMessage m) := hc.inbox e m (by rw [hinbox]; exact List.mem_cons_self)
      have hQ : Q node.members := hin.snapshot (Or.inr ⟨e, nanos, m, rest, rfl, hinbox⟩)
      refine ⟨⟨?_, carries_update hc ⟨hm, ?_, hQ⟩, hc.queue⟩, emits_quiet _⟩
      · exact fun e' m' hm' => hc.inbox e' m' (mem_of_mem_update hinbox hm')
      · rw [Message.ofBroadcast_eq]
        exact hm
  | @originated message nanos hev hnode =>
      subst hev hnode
      refine ⟨⟨hc.inbox, carries_update hc ⟨?_, ?_⟩, hc.queue⟩, emits_quiet _⟩
      · exact hin.originate message nanos rfl
      · exact hin.snapshot (Or.inl ⟨message, nanos, rfl⟩)
  | @posted j nanos data members hinput hphase hframes hhanded hprocessed hnode =>
      subst hnode
      have hsend : SendsOnly P Q (.send data members node.opened) :=
        ⟨data, members, node.opened, rfl, carries_posting (hc.jobs j) hphase⟩
      refine ⟨⟨hc.inbox, carries_update hc (carries_setSend (hc.jobs j) _), ?_⟩, ⟨?_, ?_, ?_⟩⟩
      · intro command hmem
        rcases List.mem_append.mp hmem with hold | hnew
        · exact hc.queue command hold
        · rw [List.mem_singleton.mp hnew]
          exact hsend
      · intro command hcommand
        rw [← Option.some.inj (hhanded.symm.trans hcommand)]
        exact hsend
      · simp [hprocessed]
      · simp [hframes]
  | @sendReturned j nanos send result hphase hresult hinput hframes hhanded hprocessed hnode =>
      subst hnode
      refine ⟨⟨hc.inbox, ?_, hc.queue⟩,
        ⟨by simp [hhanded], by simp [hprocessed], by simp [hframes]⟩⟩
      exact carries_update hc (carries_sendReturned hP hc nanos j hphase result)
  | @handled reach command rest hlive hqueue hev hnode =>
      subst hev hnode
      exact ⟨carries_handled hc hqueue, emits_handled hc hlive hqueue⟩

end Carries

/-- The step hands the actor a Send with id `m`. -/
def Event.handsSend (m : MessageId) (ev : Event E) : Bool :=
  match ev.handed with
  | some (.send data _ _) => data.getMessageId = some m
  | _ => false

omit [DecidableEq E] in
theorem handsSend_of_handed {m : MessageId} {ev : Event E} (h : ev.handsSend m = true) :
    ∃ data members tx, ev.handed = some (.send data members tx) ∧ data.getMessageId = some m := by
  unfold Event.handsSend at h
  split at h
  · next data members tx hhanded => exact ⟨data, members, tx, hhanded, by simpa using h⟩
  · cases h

/-! ## No call returns Ok -/

/-- No call of `EchoBroadcastHandle::send` has been or can be answered `Ok`: the queue holds Sends
only, and only an Echo makes the actor answer `Ok`. -/
structure NoOk (node : Node E) : Prop where
  sends : ∀ command ∈ node.queue, ∃ data members tx, command = .send data members tx
  results : ∀ tx, node.results tx ≠ some (.ok ())
  returned : ∀ j, node.jobs j ≠ .returned (.ok ())

omit [DecidableEq E] in
/-- Effects that answer nobody `Ok` leave no call with `Ok`. -/
theorem foldl_settle_ne_ok {effects : List (EchoBroadcast.Effect E)}
    {results : Oneshot → Option ConnectionResult} (hresults : ∀ tx, results tx ≠ some (.ok ()))
    (heffects : ∀ effect ∈ effects, ∀ tx, effect ≠ .respond tx (.ok ())) (tx : Oneshot) :
    effects.foldl settle results tx ≠ some (.ok ()) := by
  induction effects generalizing results with
  | nil => exact hresults tx
  | cons effect effects ih =>
      refine ih ?_ fun effect' hmem => heffects effect' (List.mem_cons_of_mem _ hmem)
      have hupdate : ∀ (tx₀ : Oneshot) (text : String) (tx' : Oneshot),
          Function.update results tx₀ (some (.error text)) tx' ≠ some (.ok ()) := by
        intro tx₀ text
        exact (Function.forall_update_iff results fun _ result => result ≠ some (.ok ())).mpr
          ⟨by simp, fun tx _ => hresults tx⟩
      intro tx'
      cases effect with
      | reliableSend x e data ok => exact hresults tx'
      | drop tx₀ => exact hupdate tx₀ _ tx'
      | respond tx₀ result =>
          cases result with
          | error text => exact hupdate tx₀ _ tx'
          | ok u => exact absurd rfl (heffects _ List.mem_cons_self tx₀)

omit [DecidableEq E] in
/-- A call that was not answered `Ok` does not return `Ok`. -/
theorem sendReturned_ne_ok {node : Node E} {nanos : Nat} {j : Job E} {result : ConnectionResult}
    (hresult : result ≠ .ok ()) (hj : node.jobs j ≠ .returned (.ok ())) :
    node.sendReturned calculateHash nanos j result ≠ .returned (.ok ()) := by
  have hservice : ∀ text, (serviceReturned (.error text) j : Phase E) ≠ .returned (.ok ()) := by
    intro text
    cases j <;> simp [serviceReturned]
  unfold sendReturned
  split
  · split
    · simp
    · exact hservice _
  · cases result with
    | ok u => exact absurd rfl hresult
    | error text => exact hservice _
  · exact hj

theorem noOk_update {node : Node E} (hno : NoOk node) {j : Job E} {phase : Phase E}
    (hphase : phase ≠ .returned (.ok ())) (j' : Job E) :
    Function.update node.jobs j phase j' ≠ .returned (.ok ()) :=
  (Function.forall_update_iff node.jobs fun _ phase => phase ≠ .returned (.ok ())).mpr
    ⟨hphase, fun j _ => hno.returned j⟩ j'

theorem noOk_step {node node' : Node E} {ev : Event E} (hno : NoOk node)
    (hchange : Change calculateHash node ev node') : NoOk node' := by
  cases hchange with
  | control hjobs hinbox hqueue hopened hactor hresults =>
      refine ⟨by rw [hqueue]; exact hno.sends, by rw [hresults]; exact hno.results, ?_⟩
      intro j
      rcases hjobs j with heq | ⟨e, -, heq | heq⟩
      · rw [heq]
        exact hno.returned j
      · simp [heq]
      · simp [heq]
  | arrived hev hnode =>
      subst hnode
      exact ⟨hno.sends, hno.results, hno.returned⟩
  | answered hinput hinbox hframes hhanded hprocessed hnode =>
      subst hnode
      exact ⟨hno.sends, hno.results, hno.returned⟩
  | taken hev hphase hinbox hnode =>
      subst hnode
      exact ⟨hno.sends, hno.results, noOk_update hno (by simp)⟩
  | originated hev hnode =>
      subst hnode
      exact ⟨hno.sends, hno.results, noOk_update hno (by simp)⟩
  | @posted j nanos data members hinput hphase hframes hhanded hprocessed hnode =>
      subst hnode
      refine ⟨?_, hno.results, noOk_update hno ?_⟩
      · intro command hmem
        rcases List.mem_append.mp hmem with hold | hnew
        · exact hno.sends command hold
        · exact ⟨data, members, node.opened, List.mem_singleton.mp hnew⟩
      · have hj := hno.returned j
        cases hp : node.jobs j <;> simp_all [Phase.setSend]
  | @sendReturned j nanos send result hphase hresult hinput hframes hhanded hprocessed hnode =>
      subst hnode
      have hne : result ≠ .ok () := by
        rintro rfl
        rcases hresult with herror | ⟨tx, -, hok⟩
        · cases herror
        · exact hno.results tx hok
      exact ⟨hno.sends, hno.results, noOk_update hno (sendReturned_ne_ok hne (hno.returned j))⟩
  | @handled reach command rest hlive hqueue hev hnode =>
      obtain ⟨huntouched, -, -, -, dropped, hresults⟩ := handleCommand_cases node reach command rest
      obtain ⟨data, members, tx, rfl⟩ :=
        hno.sends command (by rw [hqueue]; exact List.mem_cons_self)
      obtain ⟨a, ha⟩ := Option.isSome_iff_exists.mp hlive
      subst hnode
      refine ⟨?_, ?_, by rw [huntouched.jobs]; exact hno.returned⟩
      · exact fun command hmem => hno.sends command (mem_queue_of_handleCommand hqueue hmem)
      · rw [hresults]
        refine foldl_settle_ne_ok hno.results ?_
        intro effect hmem tx'
        rcases List.mem_append.mp hmem with heffect | hdropped
        · rw [ha] at heffect
          rcases effect_of_send heffect with ⟨x, e, ok, rfl, -⟩ | ⟨tx₁, text, rfl⟩ | ⟨tx₁, rfl⟩ <;> simp
        · obtain ⟨tx₁, -, rfl⟩ := List.mem_map.mp hdropped
          simp

end FrostFederation.Node
