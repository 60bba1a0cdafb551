/-
# FrostFederation.Federation.Round — a broadcast goes out, and its copy comes back.

Nothing but the steps the nodes take by themselves: node `o` originates a package and its actor sends
it; the node at the other end of a connection takes its copy and re-broadcasts it to everybody,
`o` included; `o` takes that copy and re-broadcasts it in turn.  Every reliable send succeeds,
nothing is lost and nothing is closed.  At the end of the round `o` has handed two Sends of one
message id to its actor, the second has replaced the waiter of the first, and the broadcast of `o`
has returned an error (`round_trip`).

The round is built from two moves that any node can make in any state: to take a copy from a link
(`run_take`), and to hand a message over to its actor and have it sent (`run_handOver`).
-/
import FrostFederation.Federation.Network
import FrostFederation.Node.Safety

namespace FrostFederation

open FrostFederation.Lib
open FrostFederation.Protocol
open FrostFederation.EchoBroadcast (ReliableSenderMap EchoBroadcastActor EchoBroadcastMessage EchoTask)

variable {E : Type} [DecidableEq E] {calculateHash : String → MessageId}

/-! ## One node hands a message over -/

namespace Node

/-- The node after its actor has handled a Send of `data` with every reliable send succeeding: the
waiter is stored, the one it replaces is dropped, and every member has been sent `data`. -/
structure SentOut (node : Node E) (a : EchoBroadcastActor E) (data : Message)
    (members : ReliableSenderMap E) (m : MessageId) (tx : Oneshot) (node' : Node E) (ev : Event E) :
    Prop where
  caused : ev.input = .actor fun _ => true
  handed : ev.handed = none
  untouched : Untouched node node'
  actor : ∃ a', node'.actor = some a' ∧ a'.messageClientTxs = a.messageClientTxs.insert m tx
  dropped : ∀ tx', a.messageClientTxs.lookup m = some tx' →
    node'.results tx' = some (.error "channel closed")
  frames : ∀ f ∈ ev.frames, f.2 = data
  reached : ∀ x e, members.lookup x = some e → (e, data) ∈ ev.frames

/-- The actor handles the Send at the head of its queue. -/
theorem sentOut_of_head (calculateHash : String → MessageId) {node : Node E}
    {a : EchoBroadcastActor E} (ha : node.actor = some a) {data : Message}
    {members : ReliableSenderMap E} {tx : Oneshot} {rest : List (EchoBroadcastMessage E)}
    (hqueue : node.queue = .send data members tx :: rest)
    {m : MessageId} (hm : data.getMessageId = some m) (hmembers : members.keys ≠ []) :
    ∃ node' ev, (machine calculateHash E).step node (.actor fun _ => true) = some (node', ev) ∧
      node'.queue = rest ∧ SentOut node a data members m tx node' ev := by
  have hcommand : SendsOnly Identified Populated (.send data members tx) :=
    ⟨data, members, tx, rfl, by simp [Identified, hm], hmembers⟩
  obtain ⟨a', event, result, hp, hcmd, -⟩ :=
    process_of_sendsOnly hcommand a fun _ => true
  have hs := step_of_process (some a) (fun _ => true) data members tx
  rw [hp] at hs
  obtain ⟨a₁, ha₁, hh⟩ := EchoTask.handled_cases hs rfl
  obtain rfl : a = a₁ := Option.some.inj ha₁
  have hreach : event.reach = fun _ => true := by
    obtain ⟨_, _, _, _, hreach, _⟩ := EchoTask.handled_of_step hs rfl
    exact hreach
  obtain ⟨m', sent, hid, hsent, ⟨-, hfailed, -⟩ | ⟨-, hreached, heff, htxs⟩⟩ := hh.of_send hcmd
  · exact absurd (fun x _ => by rw [hreach]) hfailed
  · obtain rfl : m = m' := Option.some.inj (hm.symm.trans hid)
    obtain ⟨huntouched, -⟩ :=
      handleCommand_cases node (fun _ => true) (.send data members tx) rest
    refine ⟨(node.handleCommand (fun _ => true) (.send data members tx) rest).1,
      ⟨.actor fun _ => true, sentFrames event.effects, none, some event⟩, ?_, ?_,
      ⟨rfl, rfl, huntouched, ⟨a', ?_, htxs⟩, ?_, ?_, ?_⟩⟩
    · simp only [machine, step, ha, hqueue, handleCommand, hp]
    · simp only [handleCommand, ha, hp]
    · simp only [handleCommand, ha, hp]
    · intro tx' hl
      have hresults : (node.handleCommand (fun _ => true) (.send data members tx) rest).1.results =
          event.effects.foldl settle node.results := by
        simp only [handleCommand, ha, hp]
      rw [hresults, heff, List.foldl_append, foldl_settle_onlySends hsent, hl]
      exact Function.update_self tx' _ node.results
    · intro f hf
      have hf' : f ∈ sentFrames (EchoTask.process (some a) (fun _ => true)
          (.send data members tx)).2.effects := by
        rw [hp]
        exact hf
      exact (frame_of_send hf').1
    · intro x e hl
      have hx : x ∈ members.keys := (HashMap.mem_keys_iff_lookup members x).mpr ⟨e, hl⟩
      obtain ⟨e', data', hmem⟩ := (hreached x).mpr hx
      obtain ⟨x', e'', ok, heq, hl'⟩ := hsent _ hmem
      obtain ⟨rfl, rfl, rfl, -⟩ := EchoBroadcast.Effect.reliableSend.inj heq
      obtain rfl : e = e' := Option.some.inj (hl.symm.trans hl')
      have hin : EchoBroadcast.Effect.reliableSend x e data' true ∈ event.effects := by
        rw [heff]
        exact List.mem_append_left _ hmem
      exact List.mem_filterMap.mpr ⟨_, hin, rfl⟩

/-- The node after the event loop of `e` has begun to respond to a broadcast. -/
def echoing (node : Node E) (e : E) (b : Broadcast) : Node E :=
  node.setJob (.eventLoop e) (.echoing b (.posting (.broadcastMessage b) node.members))

/-- The event loop of endpoint `e` is up and has nothing to do, its connection is a member, and no
command waits for the actor. -/
structure Idle (node : Node E) (e : E) : Prop where
  inbox : node.inbox e = []
  closed : node.closed e = false
  address : (node.address e).isSome = true
  loop : node.jobs (.eventLoop e) = .receiving
  member : ∃ x, node.members.lookup x = some e
  queue : node.queue = []

/-- The event loop of endpoint `e` is up, its connection is a member, and the node is at rest. -/
structure Ready (node : Node E) (e : E) : Prop extends node.Idle e where
  actor : node.actor = some .start

omit [DecidableEq E] in
theorem Idle.populated {node : Node E} {e : E} (h : node.Idle e) : node.members.keys ≠ [] := by
  obtain ⟨x, hx⟩ := h.member
  exact List.ne_nil_of_mem ((HashMap.mem_keys_iff_lookup _ x).mpr ⟨e, hx⟩)

end Node

/-! ## Moves of the federation -/

namespace Federation

variable {N : Type} [DecidableEq N] {F : Federation N E}

/-- A stretch of a run that disturbs nothing and originates nothing. -/
structure Stretch (F : Federation N E) (calculateHash : String → MessageId) (s : State N E)
    (tr : List (Event N E)) (s' : State N E) : Prop where
  run : (F.machine calculateHash).RunWith (fun _ ev => Undisturbed ev) s tr s'
  originations : originations tr = []

/-- The copy at the head of the link of `e` has been taken, and the event loop responds to it. -/
def taken (F : Federation N E) (s : State N E) (e : E) (b : Broadcast) (rest : List Message) :
    State N E where
  node := Function.update s.node (F.owner e) ((s.node (F.owner e)).echoing e b)
  link := Function.update s.link e rest

/-- Endpoint `e` takes the copy at the head of its link, and its event loop begins to respond. -/
theorem run_take (calculateHash : String → MessageId) {s : State N E} {e : E} {b : Broadcast}
    {rest : List Message} (hlink : s.link e = .broadcastMessage b :: rest)
    (hidle : (s.node (F.owner e)).Idle e) :
    ∃ tr, F.Stretch calculateHash s tr (F.taken s e b rest) := by
  unfold taken
  generalize hnode : s.node (F.owner e) = node at hidle ⊢
  have harrive : (Node.machine calculateHash E).step (s.node (F.owner e))
      (.arrive e (.broadcastMessage b)) =
      some ({ node with inbox := Function.update node.inbox e [.broadcastMessage b] },
        .quiet (.arrive e (.broadcastMessage b))) := by
    simp [Node.machine, Node.step, hnode, hidle.inbox, hidle.closed, hidle.address,
      Node.clientCapacity]
  have hdeliver := deliver_step F hlink harrive
  generalize hs₁ : F.advance (take s e rest) (F.owner e)
    { node with inbox := Function.update node.inbox e [.broadcastMessage b] }
    (Node.Event.quiet (.arrive e (.broadcastMessage b))).frames = s₁ at hdeliver
  have hnode₁ : s₁.node (F.owner e) =
      { node with inbox := Function.update node.inbox e [.broadcastMessage b] } := by
    rw [← hs₁, node_advance]
  have hreceive : (Node.machine calculateHash E).step (s₁.node (F.owner e)) (.receive e 0) =
      some (node.echoing e b, .quiet (.receive e 0)) := by
    have hback : Function.update (Function.update node.inbox e [.broadcastMessage b]) e [] =
        node.inbox := by
      rw [Function.update_idem, ← hidle.inbox, Function.update_eq_self]
    simp [Node.machine, Node.step, hnode₁, hidle.loop, Node.respond, Node.echoing, Node.setJob, hback,
      Node.Event.quiet]
  have hlast := node_step F (by simp [permits]) hreceive
  have hend : F.advance s₁ (F.owner e) (node.echoing e b) [] =
      { node := Function.update s.node (F.owner e) (node.echoing e b)
        link := Function.update s.link e rest } := by
    rw [advance_nil, ← hs₁]
    simp [advance, take, Node.Event.quiet]
  rw [← hend]
  refine ⟨_, (Machine.RunWith.single hdeliver ?_).snoc hlast ?_, ?_⟩
  · simp [Undisturbed, Calm, Node.Event.quiet]
  · simp [Undisturbed, Calm, Node.Event.quiet]
  · simp [originations, Event.origination?, Node.Event.quiet]

/-- Node `n` hands `data` over to its actor, which sends it to everybody in the member map. -/
theorem run_handOver (calculateHash : String → MessageId) {s : State N E} {n : N} {j : Node.Job E}
    {data : Message} {members : ReliableSenderMap E} {a : EchoBroadcastActor E} {m : MessageId}
    (hphase : ((s.node n).jobs j).send? = some (.posting data members))
    (ha : (s.node n).actor = some a) (hqueue : (s.node n).queue = [])
    (hm : data.getMessageId = some m) (hmembers : members.keys ≠ []) :
    ∃ tr node ev, F.Stretch calculateHash s tr (F.advance s n node ev.frames) ∧
      handedSends n m tr = 1 ∧ node.queue = [] ∧
      Node.SentOut ((s.node n).posted j data members) a data members m (s.node n).opened node ev := by
  have hpost := Node.step_post calculateHash hphase (by rw [ha]; rfl)
    (by simp [hqueue, Node.queueCapacity]) 0
  have hfirst := node_step F rfl hpost
  generalize hs₁ : F.advance s n ((s.node n).posted j data members) [] = s₁ at hfirst
  have hnode₁ : s₁.node n = (s.node n).posted j data members := by
    rw [← hs₁, node_advance]
  have hhead : (s₁.node n).queue = [.send data members (s.node n).opened] := by
    rw [hnode₁]
    simp [Node.posted, hqueue]
  have hactor₁ : (s₁.node n).actor = some a := by
    rw [hnode₁]
    exact ha
  obtain ⟨node, ev, hactor, hempty, hsent⟩ :=
    Node.sentOut_of_head calculateHash hactor₁ hhead hm hmembers
  have hsecond := node_step F rfl hactor
  have hend : F.advance s₁ n node ev.frames = F.advance s n node ev.frames := by
    rw [← hs₁]
    simp [advance]
  rw [hend] at hsecond
  rw [hnode₁] at hsent
  refine ⟨_, node, ev, ⟨(Machine.RunWith.single hfirst ?_).snoc hsecond ?_, ?_⟩, ?_, hempty, hsent⟩
  · simp [Undisturbed, Calm]
  · simp [Undisturbed, Calm, hsent.caused]
  · simp [originations, Event.origination?, hsent.caused]
  · simp [handedSends, Event.hands, Node.Event.handsSend, hsent.handed, hm]

/-- The links carry nothing but copies of `data`. -/
def OnlyCopies (s : State N E) (data : Message) : Prop := ∀ e, ∀ message ∈ s.link e, message = data

theorem onlyCopies_advance {s : State N E} {data : Message} (h : OnlyCopies s data) {n : N}
    {node : Node E} {frames : List (E × Message)} (hframes : ∀ f ∈ frames, f.2 = data) :
    OnlyCopies (F.advance s n node frames) data := by
  intro e message hmem
  rcases List.mem_append.mp hmem with hold | hnew
  · exact h e message hold
  · obtain ⟨f, hf, heq⟩ := List.mem_filterMap.mp hnew
    split at heq
    · rw [← Option.some.inj heq]
      exact hframes f hf
    · cases heq

/-- A copy that is sent over endpoint `e` is the head of the link to the other end. -/
theorem link_of_frame {s : State N E} {data : Message} (h : OnlyCopies s data) {n : N}
    {node : Node E} {frames : List (E × Message)} (hframes : ∀ f ∈ frames, f.2 = data) {e : E}
    (hsent : (e, data) ∈ frames) :
    ∃ rest, (F.advance s n node frames).link (F.peer e) = data :: rest := by
  have hmem : data ∈ (F.advance s n node frames).link (F.peer e) :=
    List.mem_append_right _ (List.mem_filterMap.mpr ⟨_, hsent, by simp⟩)
  cases hlink : (F.advance s n node frames).link (F.peer e) with
  | nil =>
      rw [hlink] at hmem
      cases hmem
  | cons head rest =>
      have hhead : head = data :=
        onlyCopies_advance h hframes (F.peer e) head (by rw [hlink]; exact List.mem_cons_self)
      exact ⟨rest, by rw [hhead]⟩

omit [DecidableEq E] [DecidableEq N] in
theorem Stretch.append {s s' s'' : State N E} {tr tr' : List (Event N E)}
    [DecidableEq E] [DecidableEq N] (h : F.Stretch calculateHash s tr s')
    (h' : F.Stretch calculateHash s' tr' s'') : F.Stretch calculateHash s (tr ++ tr') s'' where
  run := h.run.append h'.run
  originations := by
    rw [Federation.originations, List.filterMap_append]
    exact List.append_eq_nil_iff.mpr ⟨h.originations, h'.originations⟩

/-- The state after the owner of endpoint `e` has echoed a copy of `data` that came over it: the copy
is on its way back, and the waiter of an earlier Send of the same id has been dropped. -/
structure Echoed (F : Federation N E) (s : State N E) (e : E) (data : Message)
    (a : EchoBroadcastActor E) (m : MessageId) (s' : State N E) : Prop where
  copies : OnlyCopies s' data
  back : ∃ rest, s'.link (F.peer e) = data :: rest
  others : ∀ n, n ≠ F.owner e → s'.node n = s.node n
  jobs : ∀ j, j ≠ .eventLoop e → (s'.node (F.owner e)).jobs j = (s.node (F.owner e)).jobs j
  dropped : ∀ tx, a.messageClientTxs.lookup m = some tx →
    (s'.node (F.owner e)).results tx = some (.error "channel closed")

/-- **One echo**: a copy is taken from the link and handed over to the actor. -/
theorem run_echo (calculateHash : String → MessageId) {s : State N E} {e : E} {b : Broadcast}
    {m : MessageId} {rest : List Message}
    (hcopies : OnlyCopies s (.broadcastMessage b)) (hlink : s.link e = .broadcastMessage b :: rest)
    (hid : (Message.broadcastMessage b).getMessageId = some m)
    (hidle : (s.node (F.owner e)).Idle e) {a : EchoBroadcastActor E}
    (ha : (s.node (F.owner e)).actor = some a) :
    ∃ tr s', F.Stretch calculateHash s tr s' ∧ 1 ≤ handedSends (F.owner e) m tr ∧
      F.Echoed s e (.broadcastMessage b) a m s' := by
  obtain ⟨tr₁, hstretch₁⟩ := run_take calculateHash hlink hidle
  obtain ⟨x, hmember⟩ := hidle.member
  have hnode₁ : (F.taken s e b rest).node (F.owner e) = (s.node (F.owner e)).echoing e b :=
    Function.update_self _ _ _
  have hcopies₁ : OnlyCopies (F.taken s e b rest) (.broadcastMessage b) :=
    fun e' message hmem => hcopies e' message (Node.mem_of_mem_update hlink hmem)
  have hphase : (((F.taken s e b rest).node (F.owner e)).jobs (.eventLoop e)).send? =
      some (.posting (.broadcastMessage b) (s.node (F.owner e)).members) := by
    rw [hnode₁]
    simp [Node.echoing, Node.setJob, Node.Phase.send?]
  obtain ⟨tr₂, node, ev, hstretch₂, hhanded, -, hsent⟩ := run_handOver calculateHash hphase
    (by rw [hnode₁]; exact ha) (by rw [hnode₁]; exact hidle.queue) hid hidle.populated
  refine ⟨tr₁ ++ tr₂, _, hstretch₁.append hstretch₂, ?_, ⟨?_, ?_, ?_, ?_, ?_⟩⟩
  · simp only [handedSends, List.countP_append] at hhanded ⊢
    omega
  · exact onlyCopies_advance hcopies₁ hsent.frames
  · exact link_of_frame hcopies₁ hsent.frames (hsent.reached x e hmember)
  · intro n hn
    simp [advance, taken, hn]
  · intro j hj
    rw [node_advance, hsent.untouched.jobs, hnode₁]
    simp [Node.posted, Node.echoing, Node.setJob, hj]
  · intro tx htx
    rw [node_advance]
    exact hsent.dropped tx htx

/-- The state after node `n` has originated a broadcast and sent it out: its call waits, and its
actor holds the waiter. -/
structure SentFirst (F : Federation N E) (s : State N E) (n : N) (data : Message) (m : MessageId)
    (s' : State N E) : Prop where
  copies : OnlyCopies s' data
  out : ∀ x e, (s.node n).members.lookup x = some e → ∃ rest, s'.link (F.peer e) = data :: rest
  others : ∀ n', n' ≠ n → s'.node n' = s.node n'
  waiting : (s'.node n).jobs (.service (s.node n).services) = .serving (.waiting (s.node n).opened)
  loops : ∀ e, (s'.node n).jobs (.eventLoop e) = (s.node n).jobs (.eventLoop e)
  inbox : (s'.node n).inbox = (s.node n).inbox
  closed : (s'.node n).closed = (s.node n).closed
  address : (s'.node n).address = (s.node n).address
  members : (s'.node n).members = (s.node n).members
  queue : (s'.node n).queue = []
  actor : ∃ a, (s'.node n).actor = some a ∧ a.messageClientTxs.lookup m = some (s.node n).opened

omit [DecidableEq E] [DecidableEq N] in
/-- The event loops of a node that has sent a broadcast out are as idle as before. -/
theorem SentFirst.idle {s s' : State N E} {n : N} {data : Message} {m : MessageId} {e : E}
    (h : F.SentFirst s n data m s') (hidle : (s.node n).Idle e) : (s'.node n).Idle e where
  inbox := by
    rw [h.inbox]
    exact hidle.inbox
  closed := by
    rw [h.closed]
    exact hidle.closed
  address := by
    rw [h.address]
    exact hidle.address
  loop := by
    rw [h.loops]
    exact hidle.loop
  member := by
    rw [h.members]
    exact hidle.member
  queue := h.queue

/-- **One broadcast**: the main task originates it, and it is handed over to the actor. -/
theorem run_originate (calculateHash : String → MessageId) {s : State N E} {n : N}
    (hlinks : ∀ e, s.link e = []) (ha : (s.node n).actor = some .start)
    (hqueue : (s.node n).queue = []) (hmembers : (s.node n).members.keys ≠ []) (message : String)
    (nanos : Nat) {m : MessageId} (hm : (s.node n).messageIdGenerator.next calculateHash nanos = m) :
    ∃ tr s', (F.machine calculateHash).RunWith (fun _ ev => Undisturbed ev) s tr s' ∧
      originations tr = [(n, message, nanos)] ∧ 1 ≤ handedSends n m tr ∧
      F.SentFirst s n (Node.newPackage calculateHash (s.node n) message nanos) m s' := by
  generalize hdata : Node.newPackage calculateHash (s.node n) message nanos = data
  have hid : data.getMessageId = some m := by
    rw [← hdata, ← hm]
    rfl
  have hfirst := node_step F rfl (Node.step_originate calculateHash (s.node n) message nanos)
  rw [hdata] at hfirst
  generalize hnode : (s.node n).serving data = node₁ at hfirst
  generalize hs₁ : F.advance s n node₁ (Node.Event.quiet (.originate message nanos)).frames = s₁
    at hfirst
  have hnode₁ : s₁.node n = node₁ := by
    rw [← hs₁, node_advance]
  have hcopies₁ : OnlyCopies s₁ data := by
    intro e message hmem
    rw [← hs₁] at hmem
    simp [advance, hlinks, Node.Event.quiet] at hmem
  have hphase : ((s₁.node n).jobs (.service (s.node n).services)).send? =
      some (.posting data (s.node n).members) := by
    rw [hnode₁, ← hnode]
    simp [Node.serving, Node.setJob, Node.Phase.send?]
  obtain ⟨tr, node, ev, hstretch, hhanded, hempty, hsent⟩ := run_handOver calculateHash hphase
    (by rw [hnode₁, ← hnode]; exact ha) (by rw [hnode₁, ← hnode]; exact hqueue) hid hmembers
  refine ⟨_, _, (Machine.RunWith.single hfirst ?_).append hstretch.run, ?_, ?_, ?_⟩
  · simp [Undisturbed, Calm, Node.Event.quiet]
  · have hnone := hstretch.originations
    simp only [originations, List.filterMap_append] at hnone ⊢
    rw [hnone]
    rfl
  · simp only [handedSends, List.countP_append] at hhanded ⊢
    omega
  · rw [hnode₁] at hsent
    obtain ⟨a, hactor, htxs⟩ := hsent.actor
    have hopened : node₁.opened = (s.node n).opened := by rw [← hnode]; rfl
    refine ⟨onlyCopies_advance hcopies₁ hsent.frames, ?_, ?_, ?_, ?_, ?_, ?_, ?_, ?_, ?_, ?_⟩
    · exact fun x e hl => link_of_frame hcopies₁ hsent.frames (hsent.reached x e hl)
    · intro n' hn'
      rw [← hs₁]
      simp [advance, hn']
    · rw [node_advance, hsent.untouched.jobs, ← hopened, ← hnode]
      simp [Node.posted, Node.serving, Node.setJob, Node.Phase.setSend]
    · intro e
      rw [node_advance, hsent.untouched.jobs, ← hnode]
      simp [Node.posted, Node.serving, Node.setJob]
    · rw [node_advance, hsent.untouched.inbox, ← hnode]
      rfl
    · rw [node_advance, hsent.untouched.closed, ← hnode]
      rfl
    · rw [node_advance, hsent.untouched.address, ← hnode]
      rfl
    · rw [node_advance, hsent.untouched.members, ← hnode]
      rfl
    · rw [node_advance]
      exact hempty
    · refine ⟨a, by rw [node_advance]; exact hactor, ?_⟩
      rw [htxs, HashMap.lookup_insert_eq_ite, hopened]
      simp

/-- A call whose waiter was dropped returns an error. -/
theorem run_wake (calculateHash : String → MessageId) {s : State N E} {n : N} {i tx : Nat}
    {text : String} (hphase : (s.node n).jobs (.service i) = .serving (.waiting tx))
    (hresult : (s.node n).results tx = some (.error text)) :
    ∃ tr s', F.Stretch calculateHash s tr s' ∧
      (s'.node n).jobs (.service i) = .returned (.error "Error sending echo broadcast") := by
  have hwake : (Node.machine calculateHash E).step (s.node n) (.wake (.service i) 0) =
      some ((s.node n).setJob (.service i) (.returned (.error "Error sending echo broadcast")),
        .quiet (.wake (.service i) 0)) := by
    simp [Node.machine, Node.step, hphase, Node.Phase.send?, hresult, Node.sendReturned,
      Node.serviceReturned]
  refine ⟨_, _, ⟨Machine.RunWith.single (node_step F rfl hwake) ?_, ?_⟩, ?_⟩
  · simp [Undisturbed, Calm, Node.Event.quiet]
  · simp [originations, Event.origination?, Node.Event.quiet]
  · simp [advance, Node.setJob]

/-- **The round trip.**  From any state in which both ends of a connection are at rest and nothing
is under way, a broadcast of one end comes back to it. -/
theorem round_trip (calculateHash : String → MessageId) {s : State N E}
    (hlinks : ∀ e, s.link e = []) {e₀ : E} (hready : (s.node (F.owner e₀)).Ready e₀)
    (hready' : (s.node (F.owner (F.peer e₀))).Ready (F.peer e₀)) (message : String) (nanos : Nat) :
    ∃ tr s', (F.machine calculateHash).RunWith (fun _ ev => Undisturbed ev) s tr s' ∧
      originations tr = [(F.owner e₀, message, nanos)] ∧
      2 ≤ handedSends (F.owner e₀)
        ((s.node (F.owner e₀)).messageIdGenerator.next calculateHash nanos) tr ∧
      (s'.node (F.owner e₀)).jobs (.service (s.node (F.owner e₀)).services) =
        .returned (.error "Error sending echo broadcast") := by
  generalize hm : (s.node (F.owner e₀)).messageIdGenerator.next calculateHash nanos = m
  obtain ⟨b, hb⟩ : ∃ b, Node.newPackage calculateHash (s.node (F.owner e₀)) message nanos =
      .broadcastMessage b := ⟨_, rfl⟩
  have hid : (Message.broadcastMessage b).getMessageId = some m := by
    rw [← hb, ← hm]
    rfl
  have hne : F.owner (F.peer e₀) ≠ F.owner e₀ := F.owner_peer e₀
  -- the broadcast goes out
  obtain ⟨tr₁, s₁, hrun₁, horiginations, hhanded₁, hfirst⟩ := run_originate (F := F) calculateHash
    hlinks hready.actor hready.queue hready.toIdle.populated message nanos hm
  rw [hb] at hfirst
  obtain ⟨x, hx⟩ := hready.member
  obtain ⟨rest₁, hlink₁⟩ := hfirst.out x e₀ hx
  -- the peer echoes it
  have hpeer := hfirst.others _ hne
  obtain ⟨tr₂, s₂, hstretch₂, -, hechoed⟩ := run_echo calculateHash hfirst.copies hlink₁ hid
    (by rw [hpeer]; exact hready'.toIdle) (by rw [hpeer]; exact hready'.actor)
  obtain ⟨rest₂, hlink₂⟩ := hechoed.back
  rw [F.peer_peer] at hlink₂
  -- the originator echoes the copy that comes back, and drops its own waiter
  have hsame := hechoed.others _ hne.symm
  obtain ⟨a, ha, hwaiter⟩ := hfirst.actor
  obtain ⟨tr₃, s₃, hstretch₃, hhanded₃, hechoed'⟩ := run_echo calculateHash hechoed.copies hlink₂ hid
    (by rw [hsame]; exact hfirst.idle hready.toIdle) (by rw [hsame]; exact ha)
  have hcall : (s₃.node (F.owner e₀)).jobs (.service (s.node (F.owner e₀)).services) =
      .serving (.waiting (s.node (F.owner e₀)).opened) := by
    rw [hechoed'.jobs _ (by simp), hsame]
    exact hfirst.waiting
  -- and its call returns
  obtain ⟨tr₄, s₄, hstretch₄, hreturned⟩ :=
    run_wake calculateHash hcall (hechoed'.dropped _ hwaiter)
  have hafter := (hstretch₂.append hstretch₃).append hstretch₄
  refine ⟨tr₁ ++ (tr₂ ++ tr₃ ++ tr₄), s₄, hrun₁.append hafter.run, ?_, ?_, hreturned⟩
  · have hnone := hafter.originations
    simp only [originations, List.filterMap_append] at hnone horiginations ⊢
    rw [hnone, horiginations]
    rfl
  · simp only [handedSends, List.countP_append] at hhanded₁ hhanded₃ ⊢
    omega

end Federation

end FrostFederation
