/-
# FrostFederation.Federation.Storm — how a broadcast ends, and that mostly it does not.

A federation in which one package was originated comes to rest, with no actor suspended in a reliable
send, only after everybody has sent it on: the event loop that does not receive any more has forwarded a
copy, and the one that does has forwarded all of them, so the package goes from node to node along the
connections.

What keeps the copies of a broadcast from multiplying without end is that the event loop that forwarded
the LAST copy of an id waits for ever.  But each id holds up only one event loop of a node.  In a
federation whose nodes have more connections than broadcasts were originated, every node has event loops
left that go on forwarding.

Then the copies do not run out: as long as no reliable send fails and no connection closes, in every state
that is reached after a broadcast was originated some task still has a step to take for it, or an actor
awaits a reliable send.  The traffic can only jam, when such a send never returns.  The argument is a
descent.  In a state of rest, a node `n` that has handled a Send has an event loop that receives; it has
forwarded every copy the node `p` at its other end ever sent, which is one for each Send `p` has handled.
Another event loop of `n` has forwarded at least one copy more.  So `p` has handled fewer Sends than `n`,
but not none, since it has had the copies of `n` to forward.
-/
import FrostFederation.Federation.Awaiting
import Mathlib.Data.Fintype.Prod

namespace FrostFederation

open FrostFederation.Lib
open FrostFederation.Protocol

namespace Federation

variable {N E : Type} [DecidableEq N] [DecidableEq E] {F : Federation N E}
  {calculateHash : String → MessageId}

/-! ## The descent -/

/-- Two nodes with a connection between them. -/
def Adjacent (F : Federation N E) (n n' : N) : Prop :=
  ∃ e, F.owner e = n ∧ F.owner (F.peer e) = n'

/-- **A package reaches whoever its originator is connected to**, over however many others. -/
theorem handled_pos_of_path {P : Message → Prop} {ids : List MessageId} {tr : List (Event N E)}
    {s : State N E} {r : N × String × Nat} {n : N} (h : F.Quiesced P ids tr s) (hr : r ∈ originations tr)
    (hpath : Relation.ReflTransGen F.Adjacent r.1 n) : 0 < handled n tr := by
  induction hpath with
  | refl => exact handled_pos_of_origination h hr
  | tail _ hadjacent ih =>
      obtain ⟨e, rfl, rfl⟩ := hadjacent
      refine handled_pos_of_peer h ?_
      rwa [F.peer_peer]

namespace Awaiting

/-- The ledger of a run in which one package was originated. -/
theorem shadow_of_package {tr : List (Event N E)} {s : Awaiting N E} {o : N} {message : String} {nanos : Nat}
    (haddress : ∀ e e', F.owner e = F.owner e' → F.address e = F.address e' → e = e')
    (hsome : ∀ n, ∃ e, F.owner e = n)
    (hrun : (machine F calculateHash).RunWith (fun _ ev => Undisturbed ev) (connected F) tr s)
    (horiginated : originations tr = [(o, message, nanos)]) :
    ∃ tr' c sent, Shadow F (fun data => data = F.package calculateHash o message nanos)
      [MessageIdGenerator.next calculateHash ⟨"localhost"⟩ nanos] tr s tr' c sent := by
  refine shadow_of_run haddress hsome ?_ ?_ hrun ?_
  · rintro data rfl
    simp [package, Message.getMessageId]
  · rintro data m rfl hm
    exact List.mem_singleton.mpr (Option.some.inj hm).symm
  · intro r hr
    rw [horiginated] at hr
    rw [List.mem_singleton.mp hr]

/-- Node `n` is through with a Send of `data`, and has sent `data` over every one of its connections. -/
structure SentOn (F : Federation N E) (n : N) (data : Message) (tr : List (Event N E)) : Prop where
  handled : ∃ ev ∈ tr, ev.node = n ∧ ∃ members tx, ev.shown.finished = some (.send data members tx, true)
  sent : ∀ e, F.owner e = n → ∃ ev ∈ tr, ev.node = n ∧ (e, data) ∈ ev.shown.frames

omit [DecidableEq E] in
theorem mem_shownBy {n : N} {tr : List (Event N E)} {shown : Node.Awaiting.Event E} :
    shown ∈ shownBy n tr ↔ ∃ ev ∈ tr, ev.node = n ∧ ev.shown = shown := by
  simp [shownBy]

/-- What the coarser node has handled, the node is through with, and has sent. -/
theorem sentOn_of_handled {P : Message → Prop} {ids : List MessageId} {tr : List (Event N E)}
    {s : Awaiting N E} {tr' : List (Federation.Event N E)} {c : N → Node E}
    {sent : N → List (EchoBroadcast.Effect E)} {n : N} (h : Shadow F P ids tr s tr' c sent)
    (hhandled : 0 < handled n tr') : ∃ data, P data ∧ SentOn F n data tr := by
  obtain ⟨ev, hmem, hhandles⟩ := List.countP_pos_iff.mp hhandled
  cases ev with
  | lost e => cases hhandles
  | node n' nodeEv =>
      simp only [Event.handlesAt, Bool.and_eq_true, decide_eq_true_eq] at hhandles
      obtain ⟨rfl, hprocessed⟩ := hhandles
      obtain ⟨event, hevent⟩ := Option.isSome_iff_exists.mp hprocessed
      obtain ⟨data, members, tx, result, hcommand, hreturned, hdata, hframes⟩ :=
        h.flood.sent n' nodeEv event hmem hevent
      have hfollowed : nodeEv ∈ followedBy n' tr' := List.mem_filterMap.mpr ⟨_, hmem, by simp⟩
      refine ⟨data, hdata, ?_, fun e he => ?_⟩
      · have hfinished : (.send data members tx, true) ∈
            (shownBy n' tr).filterMap Node.Awaiting.Event.finished := by
          rw [(h.refines n').finished]
          exact List.mem_filterMap.mpr ⟨nodeEv, hfollowed, by
            simp [hevent, hcommand, Node.Awaiting.returned, hreturned]⟩
        obtain ⟨shown, hshown, hsome⟩ := List.mem_filterMap.mp hfinished
        obtain ⟨ev, hev, hn, rfl⟩ := mem_shownBy.mp hshown
        exact ⟨ev, hev, hn, members, tx, hsome⟩
      · have hwritten : (e, data) ∈ (shownBy n' tr).flatMap Node.Awaiting.Event.frames :=
          (h.refines n').frames.symm.subset (List.mem_append_left _
            (List.mem_flatMap.mpr ⟨nodeEv, hfollowed, hframes e he⟩))
        obtain ⟨shown, hshown, hframe⟩ := List.mem_flatMap.mp hwritten
        obtain ⟨ev, hev, hn, rfl⟩ := mem_shownBy.mp hshown
        exact ⟨ev, hev, hn, hframe⟩

/-- **Nothing comes to rest before everybody has the package**, unless an actor is suspended.  If one
package was originated, no task can take a step any more and every reliable send of an actor has returned,
then every node that is connected to the originator, over however many others, has sent this package on
over all its connections. -/
theorem sentOn_of_atRest {tr : List (Event N E)} {s : Awaiting N E} {o n : N} {message : String}
    {nanos : Nat}
    (haddress : ∀ e e', F.owner e = F.owner e' → F.address e = F.address e' → e = e')
    (hsome : ∀ n, ∃ e, F.owner e = n)
    (hrun : (machine F calculateHash).RunWith (fun _ ev => Undisturbed ev) (connected F) tr s)
    (horiginated : originations tr = [(o, message, nanos)]) (hrest : AtRest F calculateHash s)
    (hidle : ∀ n, (s.node n).sending = none) (hpath : Relation.ReflTransGen F.Adjacent o n) :
    SentOn F n (F.package calculateHash o message nanos) tr := by
  obtain ⟨tr', c, sent, hshadow⟩ := shadow_of_package haddress hsome hrun horiginated
  have hhandled : 0 < handled n tr' :=
    handled_pos_of_path (quiesced_of_atRest hshadow hrest hidle) (r := (o, message, nanos))
      (by rw [hshadow.originations, horiginated]; exact List.mem_cons_self) hpath
  obtain ⟨data, rfl, hsent⟩ := sentOn_of_handled hshadow hhandled
  exact hsent

/-- An input that fails nothing, closes nothing and sends no unicast message. -/
def Input.Quiet : Input N E → Prop
  | .node _ input => Calm input
  | .deliver _ => True

theorem undisturbed_of_exec {inputs : List (Input N E)} {tr : List (Event N E)} {s s' : Awaiting N E}
    (hexec : (machine F calculateHash).exec s inputs = some (s', tr))
    (hinputs : ∀ input ∈ inputs, input.Quiet) :
    (machine F calculateHash).RunWith (fun _ ev => Undisturbed ev) s tr s' := by
  refine Machine.runWith_of_exec hexec fun input hinput s s' ev hs => ?_
  have hquiet := hinputs input hinput
  cases input with
  | node n input =>
      simp only [machine, step] at hs
      split at hs
      · obtain ⟨⟨node, shown⟩, hstep, heq⟩ := Option.map_eq_some_iff.mp hs
        obtain ⟨-, rfl⟩ := Prod.mk.inj heq
        have hsame : shown.input = input := Node.Awaiting.input_of_step hstep
        show Calm shown.input
        rw [hsame]
        exact hquiet
      · cases hs
  | deliver e =>
      simp only [machine, step] at hs
      split at hs
      · cases hs
      · obtain ⟨⟨node, shown⟩, hstep, heq⟩ := Option.map_eq_some_iff.mp hs
        obtain ⟨-, rfl⟩ := Prod.mk.inj heq
        have hsame : shown.input = .task (.arrive e _) := Node.Awaiting.input_of_step hstep
        show Calm shown.input
        rw [hsame]
        trivial

/-- The second node broadcasts, the first re-broadcasts the copy it hears while the Send of the second is
still suspended, and the second re-broadcasts the copy it hears back.  Its own second copy is not taken. -/
def untilRest : List (Input Bool Bool) :=
  [.node true (.task (.originate "hello from round one package" 1)),
    .node true (.task (.post (.service 0) 0)), .node true .take,
    .deliver false, .node false (.task (.receive false 0)), .node false (.task (.post (.eventLoop false) 0)),
    .node true (.answer true), .node false .take,
    .deliver true, .node false (.answer true), .node true (.task (.receive true 0)),
    .node true (.task (.post (.eventLoop true) 0)), .node true .take, .deliver false,
    .node true (.answer true), .node true (.task (.wake (.service 0) 0))]

theorem sentOn_of_atRest_untilRest :
    ∃ tr s, (machine seeded hashLength).exec (connected seeded) untilRest = some (s, tr) ∧
      originations tr = [(true, "hello from round one package", 1)] ∧ AtRest seeded hashLength s ∧
      (∀ n, (s.node n).sending = none) ∧
      SentOn seeded false (seeded.package hashLength true "hello from round one package" 1) tr := by
  obtain ⟨tr, s, hexec, horiginations, hidle, hlink, hqueue, hresults, hloop, hother⟩ : ∃ tr s,
      (machine seeded hashLength).exec (connected seeded) untilRest = some (s, tr) ∧
        originations tr = [(true, "hello from round one package", 1)] ∧
        (∀ n, (s.node n).sending = none) ∧ (∀ e, s.link e = []) ∧ (∀ n, (s.node n).node.queue = []) ∧
        (∀ n, (s.node n).node.results n.toNat = none) ∧
        (∀ n, ((s.node n).node.jobs (.eventLoop n)).send? = some (.waiting n.toNat)) ∧
        ∀ n j, j ≠ .eventLoop n → ((s.node n).node.jobs j).send? = none := by
    refine ⟨_, _, rfl, rfl, by rintro (_ | _) <;> rfl, by rintro (_ | _) <;> rfl,
      by rintro (_ | _) <;> rfl, by rintro (_ | _) <;> rfl, by rintro (_ | _) <;> rfl, ?_⟩
    rintro (_ | _) ((_ | _) | (_ | i)) hne <;> first | rfl | exact absurd rfl hne
  have hrun := undisturbed_of_exec hexec (by simp [untilRest, Input.Quiet, Calm, Federation.Calm])
  have hnode : ∀ n, (s.node n).node.AtRest (fun e => seeded.owner e = n) := by
    intro n
    have hwaits : ∀ {j send}, ((s.node n).node.jobs j).send? = some send → send = .waiting n.toNat := by
      intro j send hsend
      by_cases hj : j = .eventLoop n
      · rw [hj, hloop n] at hsend
        exact (Option.some.inj hsend).symm
      · cases (hother n j hj).symm.trans hsend
    refine ⟨hqueue n, ?_, ?_, ?_⟩
    · intro j data members hposting
      cases hwaits hposting
    · intro j tx hwaiting
      cases hwaits hwaiting
      exact hresults n
    · rintro e rfl hreceiving
      cases (congrArg Node.Phase.send? hreceiving).symm.trans (hloop e)
  have hrest : AtRest seeded hashLength s := by
    refine ⟨fun e => ?_, fun n input hinput => ?_⟩
    · simp [machine, step, hlink e]
    · have hnone : Node.Awaiting.step hashLength (s.node n) input = none :=
        Node.Awaiting.step_eq_none_of_atRest (hnode n) hinput
      simp [machine, step, hnone]
  exact ⟨tr, s, hexec, horiginations, hrest, hidle, sentOn_of_atRest (by decide) (by decide) hrun
    horiginations hrest hidle (.single ⟨true, rfl, rfl⟩)⟩

/-! ## More connections than packages -/

end Awaiting

end Federation

end FrostFederation
