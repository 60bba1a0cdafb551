/-
# FrostFederation.Federation.Flood — what becomes of the copies of a broadcast.

Every node re-broadcasts every copy it takes, to all its connections and also to the one the copy came
from.  `Flood` is the ledger of a run in which no reliable send fails and no connection closes: what each
node has been handed and has handled, which event loops have forwarded a copy, and what is on the links.
It speaks about nodes that handle a Send in one step; the nodes may stand beside others that take several
(`Federation.Awaiting`).

In a state of rest nothing is on the way any more (`Quiesced`).  Of every Send that the node at the other
end of a connection has handled, a copy has come over it, so an event loop that receives has forwarded
every copy it was ever sent, and one that does not is held up by a copy it has forwarded itself.
-/
import FrostFederation.Federation.Round
import FrostFederation.Node.Rest

namespace FrostFederation

open FrostFederation.Lib
open FrostFederation.Protocol
open FrostFederation.EchoBroadcast (ReliableSenderMap EchoBroadcastMessage)

variable {E : Type} [DecidableEq E] {calculateHash : String → MessageId}

namespace Node

variable {own : E → Prop} {addr : E → String} {P : Message → Prop}

/-- A command that is handled is a Send, does not panic, and goes out over every connection. -/
theorem sent_of_processed (hid : ∀ data, P data → data.getMessageId ≠ none) (hsome : ∃ e, own e)
    {node node' : Node E} {input : Input E} {ev : Event E} {event : EchoBroadcast.Event E}
    (h : Up own addr P node) (hs : (machine calculateHash E).step node input = some (node', ev))
    (hcalm : Calmly own P calculateHash node ev) (hprocessed : ev.processed = some event) :
    ∃ data members tx result, event.command = .send data members tx ∧
      event.outcome = .returned result ∧ P data ∧ ∀ e, own e → (e, data) ∈ ev.frames := by
  cases stepped_of_step hs with
  | @handled reach command rest hlive hqueue =>
      obtain rfl := hcalm.reached reach rfl
      obtain ⟨a, ha⟩ := Option.isSome_iff_exists.mp hlive
      have hhead : command ∈ node.queue := by rw [hqueue]; exact List.mem_cons_self
      obtain ⟨a', event', result, hp, hcommand, hreturned⟩ :=
        process_of_sendsOnly (h.sound.carries.queue command hhead) a fun _ => true
      obtain ⟨data, members, tx, rfl, hdata, hcomplete⟩ := h.carries.queue command hhead
      obtain ⟨m, hm⟩ := Option.ne_none_iff_exists'.mp (hid data hdata)
      obtain ⟨node₁, ev₁, hstep, -, hsent⟩ := sentOut_of_head calculateHash ha hqueue hm
        (populated_of_complete hsome hcomplete)
      have hevent := (handleCommand_cases node (fun _ => true) (.send data members tx) rest).2.1
      rw [ha, hp] at hevent
      obtain rfl : event = event' := by rw [← Option.some.inj hprocessed, hevent]
      rw [hstep] at hs
      obtain ⟨-, rfl⟩ := Prod.mk.inj (Option.some.inj hs)
      exact ⟨data, members, tx, result, hcommand, hreturned, hdata,
        fun e he => hsent.reached _ e (hcomplete e he)⟩
  | _ => cases hprocessed

end Node

namespace Federation

variable {N : Type} [DecidableEq N] {F : Federation N E} {P : Message → Prop}

/-- The endpoints of a node. -/
def connections (F : Federation N E) (n : N) : List E := F.endpoints.filter fun e => F.owner e = n

omit [DecidableEq E] in
theorem mem_connections {n : N} {e : E} : e ∈ F.connections n ↔ F.owner e = n := by
  simp [connections, F.mem_endpoints e]

/-! ## What is counted -/

/-- The actor of node `n` handles a command. -/
def Event.handlesAt (n : N) : Event N E → Bool
  | .node n' ev => n' = n && ev.processed.isSome
  | .lost _ => false

/-- A task of node `n` hands a command over. -/
def Event.handsAt (n : N) : Event N E → Bool
  | .node n' ev => n' = n && ev.handed.isSome
  | .lost _ => false

/-- The event loop of endpoint `e` hands a command over. -/
def Event.forwardsOver (F : Federation N E) (e : E) : Event N E → Bool
  | .node n' ev => n' = F.owner e && ev.forwards e
  | .lost _ => false

def handled (n : N) (tr : List (Event N E)) : Nat := tr.countP (Event.handlesAt n)

def handed (n : N) (tr : List (Event N E)) : Nat := tr.countP (Event.handsAt n)

def forwarded (F : Federation N E) (e : E) (tr : List (Event N E)) : Nat :=
  tr.countP (Event.forwardsOver F e)

theorem countP_snoc {α : Type} (p : α → Bool) (l : List α) (a : α) :
    (l ++ [a]).countP p = l.countP p + (p a).toNat := by
  cases hp : p a <;> simp [hp]

theorem handsAt_of_forwardsOver {e : E} {ev : Event N E} (h : ev.forwardsOver F e = true) :
    ∃ nodeEv nanos, ev = .node (F.owner e) nodeEv ∧ nodeEv.input = .post (.eventLoop e) nanos ∧
      ev.handsAt (F.owner e) = true := by
  cases ev with
  | lost e' => cases h
  | node n nodeEv =>
      simp only [Event.forwardsOver, Bool.and_eq_true, decide_eq_true_eq] at h
      obtain ⟨rfl, hforwards⟩ := h
      obtain ⟨nanos, hinput, hhanded⟩ := Node.forwards_iff.mp hforwards
      exact ⟨nodeEv, nanos, rfl, hinput, by simp [Event.handsAt, hhanded]⟩

/-- What a run from the connected state has left under way, and what it has counted. -/
structure Flood (F : Federation N E) (P : Message → Prop) (ids : List MessageId)
    (tr : List (Event N E)) (s : State N E) : Prop where
  up : ∀ n, (s.node n).Up (fun e => F.owner e = n) F.address P
  held : ∀ n, (s.node n).Held ids
  bindAddress : ∀ n, (s.node n).bindAddress = F.bindAddress n
  messageIdGenerator : ∀ n, (s.node n).messageIdGenerator = ⟨"localhost"⟩
  links : ∀ e b, .broadcastMessage b ∈ s.link e → P (.broadcastMessage b)
  waiting : ∀ e tx, ((s.node (F.owner e)).jobs (.eventLoop e)).send? = some (.waiting tx) →
    0 < F.forwarded e tr
  queue : ∀ n, handed n tr = handled n tr + (s.node n).queue.length
  origin : ∀ r ∈ originations tr, 0 < handed r.1 tr ∨
    ∃ i data members, ((s.node r.1).jobs (.service i)).send? = some (.posting data members)
  sent : ∀ n nodeEv event, .node n nodeEv ∈ tr → nodeEv.processed = some event →
    ∃ data members tx result, event.command = .send data members tx ∧
      event.outcome = .returned result ∧ P data ∧ ∀ e, F.owner e = n → (e, data) ∈ nodeEv.frames

/-- One node takes a calm step, and the others take none. -/
structure Advanced (F : Federation N E) (calculateHash : String → MessageId) (P : Message → Prop)
    (s : State N E) (n : N) (nodeEv : Node.Event E) (s' : State N E) : Prop where
  step : ∃ input, (Node.machine calculateHash E).step (s.node n) input = some (s'.node n, nodeEv)
  others : ∀ n', n' ≠ n → s'.node n' = s.node n'
  calmly : Node.Calmly (fun e => F.owner e = n) P calculateHash (s.node n) nodeEv

/-- What holds of the node that steps, and of all nodes before, holds of all nodes. -/
theorem Advanced.forall_node {s s' : State N E} {n : N} {nodeEv : Node.Event E}
    (h : F.Advanced calculateHash P s n nodeEv s') {R : N → Node E → Prop} (hself : R n (s'.node n))
    (hbefore : ∀ n, R n (s.node n)) (n' : N) : R n' (s'.node n') := by
  by_cases hn : n' = n
  · rw [hn]
    exact hself
  · rw [h.others n' hn]
    exact hbefore n'

theorem broadcasts_append (l l' : List Message) :
    Node.broadcasts (l ++ l') = Node.broadcasts l + Node.broadcasts l' :=
  List.countP_append

omit [DecidableEq N] in
theorem mem_frames_of_bound {e : E} {frames : List (E × Message)} {message : Message}
    (h : message ∈ F.bound frames e) : ∃ e', (e', message) ∈ frames := by
  obtain ⟨f, hf, heq⟩ := List.mem_filterMap.mp h
  split at heq
  · exact ⟨f.1, by rw [← Option.some.inj heq]; exact hf⟩
  · cases heq

omit [DecidableEq E] [DecidableEq N] in
theorem calmly_of_calm {s : State N E} {n : N} {nodeEv : Node.Event E} (hcalm : Calm nodeEv.input)
    (hregister : ∀ e, nodeEv.input = .register e → F.owner e = n)
    (harrive : ∀ e b, nodeEv.input = .arrive e (.broadcastMessage b) →
      P (.broadcastMessage b))
    (horiginate : ∀ message nanos, nodeEv.input = .originate message nanos →
      P (Node.newPackage calculateHash (s.node n) message nanos)) :
    Node.Calmly (fun e => F.owner e = n) P calculateHash (s.node n) nodeEv where
  reached := by
    intro reach hinput
    rw [hinput] at hcalm
    exact funext hcalm
  close := by
    intro e hinput
    rw [hinput] at hcalm
    exact hcalm
  finish := by
    intro e hinput
    rw [hinput] at hcalm
    exact hcalm
  register := hregister
  arrive := harrive
  originate := horiginate

theorem advanced_of_step {ids : List MessageId} {tr : List (Event N E)} {s s' : State N E}
    {input : Input N E} {ev : Event N E} (h : F.Flood P ids tr s)
    (hs : (F.machine calculateHash).step s input = some (s', ev)) (hquiet : Undisturbed ev)
    (horiginate : ∀ r, ev.origination? = some r → P (F.package calculateHash r.1 r.2.1 r.2.2)) :
    ∃ n nodeEv, ev = .node n nodeEv ∧ F.Advanced calculateHash P s n nodeEv s' ∧
      ∀ e b, .broadcastMessage b ∈ s'.link e →
        .broadcastMessage b ∈ s.link e ∨ ∃ e', (e', .broadcastMessage b) ∈ nodeEv.frames := by
  have hpackage : ∀ n nodeEv, ev = .node n nodeEv → ∀ message nanos,
      nodeEv.input = .originate message nanos →
      P (Node.newPackage calculateHash (s.node n) message nanos) := by
    rintro n nodeEv rfl message nanos hinput
    have hP := horiginate (n, message, nanos) (by simp [Event.origination?, hinput])
    rwa [Node.newPackage, h.bindAddress n, h.messageIdGenerator n]
  cases moved_of_step hs with
  | lost _ hev _ =>
      rw [hev] at hquiet
      cases hquiet
  | @acted n nodeInput node nodeEv hpermits hstep hev hs' =>
      subst hev hs'
      have hcaused := (Node.kept_of_step hstep).caused
      refine ⟨n, nodeEv, rfl, ⟨⟨nodeInput, by rw [node_advance]; exact hstep⟩, ?_, ?_⟩, ?_⟩
      · exact fun n' hn' => Function.update_of_ne hn' _ _
      · refine calmly_of_calm hquiet ?_ ?_ (hpackage _ nodeEv rfl)
        · intro e hinput
          rw [hcaused.symm.trans hinput] at hpermits
          simpa [permits] using hpermits
        · intro e b hinput
          rw [hcaused.symm.trans hinput] at hpermits
          simp [permits] at hpermits
      · intro e b hb
        rcases List.mem_append.mp hb with hold | hnew
        · exact Or.inl hold
        · exact Or.inr (mem_frames_of_bound hnew)
  | @delivered e₀ message rest node nodeEv hlink hstep hev hs' =>
      subst hev hs'
      have hcaused := (Node.kept_of_step hstep).caused
      refine ⟨F.owner e₀, nodeEv, rfl,
        ⟨⟨.arrive e₀ message, by rw [node_advance]; exact hstep⟩, ?_, ?_⟩, ?_⟩
      · exact fun n' hn' => Function.update_of_ne hn' _ _
      · refine calmly_of_calm hquiet ?_ ?_ (hpackage _ nodeEv rfl)
        · intro e hinput
          cases hcaused.symm.trans hinput
        · intro e b hinput
          cases hcaused.symm.trans hinput
          exact h.links e₀ b (by rw [hlink]; exact List.mem_cons_self)
      · intro e b hb
        rcases List.mem_append.mp hb with hold | hnew
        · exact Or.inl (Node.mem_of_mem_update hlink hold)
        · exact Or.inr (mem_frames_of_bound hnew)

section Step

variable {ids : List MessageId} {tr : List (Event N E)} {s s' : State N E} {n : N}
  {nodeEv : Node.Event E} (hid : ∀ data, P data → data.getMessageId ≠ none)
  (hids : ∀ data m, P data → data.getMessageId = some m → m ∈ ids) (hsome : ∀ n, ∃ e, F.owner e = n)
  (h : F.Flood P ids tr s) (hadvanced : F.Advanced calculateHash P s n nodeEv s')

include hid h hadvanced in
/-- The broadcasts that a node writes have `P`. -/
theorem broadcast_of_frames {e : E} {b : Broadcast} (hb : (e, .broadcastMessage b) ∈ nodeEv.frames) :
    P (.broadcastMessage b) := by
  obtain ⟨input, hstep⟩ := hadvanced.step
  have hadmits : Node.Admits P (Node.Complete (fun e => F.owner e = n) F.address)
      calculateHash (s.node n) nodeEv :=
    ⟨hadvanced.calmly.arrive, hadvanced.calmly.originate, fun _ => (h.up n).members⟩
  have hemits := (Node.carries_step (fun _ => hid _) (h.up n).carries
    (Node.change_of_step hstep) hadmits).2
  rcases hemits.frames _ hb with ⟨u, hu⟩ | ⟨hP, -⟩
  · cases hu
  · exact hP

include hid h hadvanced in
theorem waiting_step {e : E} {tx : Oneshot}
    (hwaiting : ((s'.node (F.owner e)).jobs (.eventLoop e)).send? = some (.waiting tx)) :
    0 < F.forwarded e (tr ++ [.node n nodeEv]) := by
  obtain ⟨input, hstep⟩ := hadvanced.step
  rw [forwarded, countP_snoc]
  by_cases howner : F.owner e = n
  · subst howner
    rcases Node.waiting_cases hid (h.up _) hstep hwaiting with hold | ⟨-, hposted⟩
    · exact Nat.lt_of_lt_of_le (h.waiting e tx hold) (Nat.le_add_right _ _)
    · have hforwards : Event.forwardsOver F e (.node (F.owner e) nodeEv) = true := by
        simpa [Event.forwardsOver] using Node.forwards_iff.mpr hposted
      rw [hforwards]
      exact Nat.succ_pos _
  · rw [hadvanced.others _ howner] at hwaiting
    exact Nat.lt_of_lt_of_le (h.waiting e tx hwaiting) (Nat.le_add_right _ _)

include h hadvanced in
theorem queue_step (n' : N) : handed n' (tr ++ [.node n nodeEv]) =
    handled n' (tr ++ [.node n nodeEv]) + (s'.node n').queue.length := by
  have hqueue := h.queue n'
  obtain ⟨input, hstep⟩ := hadvanced.step
  simp only [handed, handled, countP_snoc] at hqueue ⊢
  by_cases hn : n' = n
  · subst hn
    have hlength := Node.queue_step (h.up n') hstep hadvanced.calmly
    simp only [Event.handsAt, Event.handlesAt, decide_true, Bool.true_and]
    omega
  · rw [hadvanced.others n' hn]
    simpa [Event.handsAt, Event.handlesAt, Ne.symm hn] using hqueue

include h hadvanced in
theorem origin_step {r : N × String × Nat} (hr : r ∈ originations (tr ++ [.node n nodeEv])) :
    0 < handed r.1 (tr ++ [.node n nodeEv]) ∨
      ∃ i data members, ((s'.node r.1).jobs (.service i)).send? = some (.posting data members) := by
  obtain ⟨input, hstep⟩ := hadvanced.step
  rw [originations, List.filterMap_append] at hr
  rw [handed, countP_snoc]
  rcases List.mem_append.mp hr with hold | hnew
  · rcases h.origin r hold with hpos | ⟨i, data, members, hphase⟩
    · exact Or.inl (Nat.lt_of_lt_of_le hpos (Nat.le_add_right _ _))
    · by_cases hn : r.1 = n
      · subst hn
        rcases Node.posting_step (h.up _) hstep hphase with hstays | hhanded
        · exact Or.inr ⟨i, data, members, hstays⟩
        · exact Or.inl (by simp [Event.handsAt, hhanded])
      · rw [hadvanced.others _ hn]
        exact Or.inr ⟨i, data, members, hphase⟩
  · -- the package is to be posted
    obtain ⟨ev, hev, horigination⟩ := List.mem_filterMap.mp hnew
    rw [List.mem_singleton.mp hev, Event.origination?] at horigination
    split at horigination
    · next message nanos hinput =>
        obtain rfl := Option.some.inj horigination
        have hcaused := (Node.kept_of_step hstep).caused
        rw [← hcaused, hinput, Node.step_originate] at hstep
        obtain ⟨hnode, -⟩ := Prod.mk.inj (Option.some.inj hstep)
        refine Or.inr ⟨(s.node n).services,
          Node.newPackage calculateHash (s.node n) message nanos, (s.node n).members, ?_⟩
        rw [← hnode]
        simp [Node.serving, Node.setJob, Node.Phase.send?]
    · cases horigination

include hid hids hsome h hadvanced in
/-- **A step keeps the ledger.** -/
theorem flood_step
    (haddress : ∀ e e', F.owner e = F.owner e' → F.address e = F.address e' → e = e')
    (hlinks : ∀ e b, .broadcastMessage b ∈ s'.link e → P (.broadcastMessage b)) :
    F.Flood P ids (tr ++ [.node n nodeEv]) s' := by
  obtain ⟨input, hstep⟩ := hadvanced.step
  have hup := Node.up_step hid (fun e e' he he' => haddress e e' (he.trans he'.symm)) (hsome n) (h.up n)
    hstep hadvanced.calmly
  exact
    { up := hadvanced.forall_node (R := fun n node => node.Up (fun e => F.owner e = n) F.address P) hup h.up
      held := hadvanced.forall_node (R := fun _ node => node.Held ids)
        (Node.held_step hid hids (h.up n) (h.held n) hstep hadvanced.calmly) h.held
      bindAddress := hadvanced.forall_node (R := fun n node => node.bindAddress = F.bindAddress n)
        ((Node.kept_of_step hstep).bindAddress.trans (h.bindAddress n)) h.bindAddress
      messageIdGenerator := hadvanced.forall_node (R := fun _ node => node.messageIdGenerator = ⟨"localhost"⟩)
        ((Node.kept_of_step hstep).messageIdGenerator.trans (h.messageIdGenerator n))
        h.messageIdGenerator
      links := hlinks
      waiting := fun _ _ => waiting_step hid h hadvanced
      queue := queue_step h hadvanced
      origin := fun _ => origin_step h hadvanced
      sent := by
        intro n' nodeEv' event hmem hprocessed
        rcases List.mem_append.mp hmem with hold | hlast
        · exact h.sent n' nodeEv' event hold hprocessed
        · cases List.mem_singleton.mp hlast
          exact Node.sent_of_processed hid (hsome n) (h.up n) hstep hadvanced.calmly hprocessed }

end Step

/-! ## The connected state -/

/-- A node that has connected and registered its endpoints among `l`, and has done nothing else. -/
structure Joined (F : Federation N E) (l : List E) (n : N) (node : Node E) : Prop where
  inbox : ∀ e, node.inbox e = []
  closed : ∀ e, node.closed e = false
  queue : node.queue = []
  actor : node.actor = some .start
  results : ∀ tx, node.results tx = none
  bindAddress : node.bindAddress = F.bindAddress n
  messageIdGenerator : node.messageIdGenerator = ⟨"localhost"⟩
  idle : ∀ j, node.jobs j = .absent ∨ node.jobs j = .receiving
  services : ∀ i, node.jobs (.service i) = .absent
  loops : ∀ e ∈ l, F.owner e = n → node.jobs (.eventLoop e) = .receiving
  address : ∀ e ∈ l, F.owner e = n → node.address e = some (F.address e)
  members : ∀ e ∈ l, F.owner e = n → node.members.lookup (F.address e) = some e

theorem joined_connect
    (haddress : ∀ e e', F.owner e = F.owner e' → F.address e = F.address e' → e = e') {l : List E}
    {s : State N E} (h : ∀ n, F.Joined l n (s.node n)) (e : E) (n : N) :
    F.Joined (l ++ [e]) n ((F.connect s e).node n) := by
  have hn := h n
  by_cases howner : F.owner e = n
  · subst howner
    have hnode : (F.connect s e).node (F.owner e) = ((s.node (F.owner e)).startConnectionEventLoop e
        (F.address e)).addMember (F.address e) e := Function.update_self _ _ _
    have hjobs : ((F.connect s e).node (F.owner e)).jobs =
        Function.update (s.node (F.owner e)).jobs (.eventLoop e) .receiving := by rw [hnode]; rfl
    have haddresses : ((F.connect s e).node (F.owner e)).address =
        Function.update (s.node (F.owner e)).address e (some (F.address e)) := by rw [hnode]; rfl
    have hmembers : ((F.connect s e).node (F.owner e)).members =
        (s.node (F.owner e)).members.insert (F.address e) e := by rw [hnode]; rfl
    refine ⟨by rw [hnode]; exact hn.inbox, by rw [hnode]; exact hn.closed, by rw [hnode]; exact hn.queue,
      by rw [hnode]; exact hn.actor, by rw [hnode]; exact hn.results, by rw [hnode]; exact hn.bindAddress,
      by rw [hnode]; exact hn.messageIdGenerator, ?_, ?_, ?_, ?_, ?_⟩
    · rw [hjobs]
      exact (Function.forall_update_iff _ fun _ (phase : Node.Phase E) =>
        phase = .absent ∨ phase = .receiving).mpr
        ⟨Or.inr rfl, fun j _ => hn.idle j⟩
    · intro i
      rw [hjobs, Function.update_of_ne (by simp)]
      exact hn.services i
    · intro e' he' howner'
      rw [hjobs]
      by_cases heq : e' = e
      · rw [heq, Function.update_self]
      · rw [Function.update_of_ne (by simpa using heq)]
        exact hn.loops e' (by simpa [heq] using he') howner'
    · intro e' he' howner'
      rw [haddresses]
      by_cases heq : e' = e
      · rw [heq, Function.update_self]
      · rw [Function.update_of_ne heq]
        exact hn.address e' (by simpa [heq] using he') howner'
    · intro e' he' howner'
      rw [hmembers, HashMap.lookup_insert_eq_ite]
      split
      · next heq => rw [haddress e' e howner' heq]
      · next hne =>
          refine hn.members e' ?_ howner'
          have heq : e' ≠ e := fun heq => hne (by rw [heq])
          simpa [heq] using he'
  · have hnode : (F.connect s e).node n = s.node n := Function.update_of_ne (Ne.symm howner) _ _
    have hold : ∀ e' ∈ l ++ [e], F.owner e' = n → e' ∈ l := by
      intro e' he' howner'
      rcases List.mem_append.mp he' with hmem | hlast
      · exact hmem
      · rw [List.mem_singleton.mp hlast] at howner'
        exact absurd howner' howner
    rw [hnode]
    exact
      { hn with
        loops := fun e' he' howner' => hn.loops e' (hold e' he' howner') howner'
        address := fun e' he' howner' => hn.address e' (hold e' he' howner') howner'
        members := fun e' he' howner' => hn.members e' (hold e' he' howner') howner' }

theorem joined_connected
    (haddress : ∀ e e', F.owner e = F.owner e' → F.address e = F.address e' → e = e') :
    (∀ n, F.Joined F.endpoints n (F.connected.node n)) ∧ F.connected.link = fun _ => [] := by
  have hfold : ∀ l : List E, (∀ n, F.Joined l n ((l.foldl F.connect F.initial).node n)) ∧
      (l.foldl F.connect F.initial).link = fun _ => [] := by
    intro l
    induction l using List.reverseRecOn with
    | nil =>
        refine ⟨fun n => ?_, rfl⟩
        exact ⟨fun _ => rfl, fun _ => rfl, rfl, rfl, fun _ => rfl, rfl, rfl, fun _ => Or.inl rfl, fun _ => rfl,
          by simp, by simp, by simp⟩
    | append_singleton l e ih =>
        rw [List.foldl_append]
        exact ⟨joined_connect haddress ih.1 e, ih.2⟩
  exact hfold F.endpoints

omit [DecidableEq E] [DecidableEq N] in
theorem carries_of_joined {n : N} {node : Node E} {l : List E} (h : F.Joined l n node)
    {P : Message → Prop} {Q : ReliableSenderMap E → Prop} : node.Carries P Q where
  inbox := by
    intro e m hm
    rw [h.inbox e] at hm
    cases hm
  jobs := by
    intro j
    rcases h.idle j with hj | hj
    · rw [hj]
      trivial
    · rw [hj]
      trivial
  queue := by simp [h.queue]

omit [DecidableEq E] [DecidableEq N] in
theorem up_of_joined {n : N} {node : Node E} (h : F.Joined F.endpoints n node) :
    node.Up (fun e => F.owner e = n) F.address P where
  sound := ⟨carries_of_joined h, by rw [h.actor]; rfl⟩
  numbered :=
    { queue := by simp [h.queue]
      waiter := by simp [Node.waiter, h.actor, EchoBroadcast.EchoBroadcastActor.start]
      results := fun tx _ => h.results tx
      services := fun i _ => h.services i }
  carries := carries_of_joined h
  members := fun e he => h.members e (F.mem_endpoints e) he
  address := fun e he => h.address e (F.mem_endpoints e) he
  closed := h.closed
  loops := fun e he => Or.inl (h.loops e (F.mem_endpoints e) he)

theorem flood_connected (ids : List MessageId)
    (haddress : ∀ e e', F.owner e = F.owner e' → F.address e = F.address e' → e = e') :
    F.Flood P ids [] F.connected := by
  obtain ⟨hjoined, hlink⟩ := joined_connected haddress
  -- no task is in a call
  have hnone : ∀ n j, ((F.connected.node n).jobs j).send? = none := by
    intro n j
    rcases (hjoined n).idle j with hj | hj
    · rw [hj]
      rfl
    · rw [hj]
      rfl
  exact
    { up := fun n => up_of_joined (hjoined n)
      held := fun n => ⟨by simp [hnone], by simp [hnone], by simp [hnone]⟩
      bindAddress := fun n => (hjoined n).bindAddress
      messageIdGenerator := fun n => (hjoined n).messageIdGenerator
      links := by simp [hlink]
      waiting := by simp [hnone]
      queue := fun n => by simp [handed, handled, (hjoined n).queue]
      origin := by simp [originations]
      sent := by simp }

/-! ## A federation at rest -/

/-- Every node waits, and what is on a link finds no room.  Of every Send that the other end has handled, a
copy is on the link, with the node or has been forwarded. -/
structure Quiesced (F : Federation N E) (P : Message → Prop) (ids : List MessageId)
    (tr : List (Event N E)) (s : State N E) : Prop where
  flood : F.Flood P ids tr s
  copies : ∀ e, handled (F.owner (F.peer e)) tr ≤
    Node.broadcasts (s.link e) + (s.node (F.owner e)).pending e + F.forwarded e tr
  nodes : ∀ n, (s.node n).AtRest (fun e => F.owner e = n)
  links : ∀ e, (s.node (F.owner e)).inbox e = [] → s.link e = []

section Rest

variable {ids : List MessageId} {tr : List (Event N E)} {s : State N E} (h : F.Quiesced P ids tr s)

include h in
/-- All that was handed over has been handled. -/
theorem handed_eq_handled (n : N) : handed n tr = handled n tr := by
  rw [h.flood.queue, (h.nodes n).queue]
  rfl

include h in
/-- An event loop that receives has forwarded every copy it was sent. -/
theorem handled_le_forwarded {e : E}
    (hreceiving : (s.node (F.owner e)).jobs (.eventLoop e) = .receiving) :
    handled (F.owner (F.peer e)) tr ≤ F.forwarded e tr := by
  have hinbox := (h.nodes _).inbox e rfl hreceiving
  have hlink := h.links e hinbox
  have hcopies := h.copies e
  simpa [hlink, Node.pending, hinbox, hreceiving, Node.broadcasts, Node.Phase.isPosting,
    Node.Phase.send?] using hcopies

include h in
/-- An event loop that does not receive has forwarded a copy. -/
theorem forwarded_pos {e : E} (hstuck : (s.node (F.owner e)).jobs (.eventLoop e) ≠ .receiving) :
    0 < F.forwarded e tr := by
  rcases Node.receiving_or_stored (h.flood.up _) (h.flood.held _) (h.nodes (F.owner e)) rfl with
    hreceiving | ⟨tx, hwaiting, -⟩
  · exact absurd hreceiving hstuck
  · exact h.flood.waiting e tx hwaiting

include h in
/-- An event loop whose other end has handled a Send has forwarded a copy. -/
theorem forwarded_pos_of_peer {e : E} (hpeer : 0 < handled (F.owner (F.peer e)) tr) :
    0 < F.forwarded e tr := by
  by_cases hreceiving : (s.node (F.owner e)).jobs (.eventLoop e) = .receiving
  · exact Nat.lt_of_lt_of_le hpeer (handled_le_forwarded h hreceiving)
  · exact forwarded_pos h hreceiving

include h in
/-- Whoever is connected to a node that has handled a Send has handled one too. -/
theorem handled_pos_of_peer {e : E} (hpeer : 0 < handled (F.owner (F.peer e)) tr) :
    0 < handled (F.owner e) tr := by
  rw [← handed_eq_handled h]
  exact Nat.lt_of_lt_of_le (forwarded_pos_of_peer h hpeer)
    (List.countP_mono_left fun ev _ hforwards =>
      (handsAt_of_forwardsOver hforwards).elim fun _ h => h.elim fun _ h => h.2.2)

include h in
/-- Whoever has originated a package has handled a Send. -/
theorem handled_pos_of_origination {r : N × String × Nat} (hr : r ∈ originations tr) :
    0 < handled r.1 tr := by
  rcases h.flood.origin r hr with hpos | ⟨i, data, members, hposting⟩
  · rwa [← handed_eq_handled h]
  · exact absurd hposting ((h.nodes r.1).posting _ data members)

end Rest

end Federation

end FrostFederation
