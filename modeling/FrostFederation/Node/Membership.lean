/-
# FrostFederation.Node.Membership — the membership handle as a shared map.

Everybody in a node shares one membership: the main task adds the connections it opens, each event loop
removes its own connection when it ends, and every broadcast and every membership message takes a
snapshot.  They all hold clones of one `MembershipHandle`, and their calls overlap: a call puts its
message into the bounded channel of the membership actor and waits for the oneshot the actor answers
through.  The snapshot of a membership message is taken under a timeout, so such a call may be given up
at any moment.

For its callers all of this is one map with three atomic operations.  What they see is linearizable
against the map (`spec`): an `add_member` that has returned is in every snapshot that is asked for later,
until somebody removes or replaces it, and of two overlapping `remove_member` of one address exactly one
succeeds.  A call never sees the channel closed, because it holds a sender of it itself, so the
`unwrap` of `remove_member` and the two other error texts are not reached.
-/
import FrostFederation.Lib.Actor
import FrostFederation.Node.Registration

namespace FrostFederation.Node.MembershipHandle

open FrostFederation.Lib
open FrostFederation.EchoBroadcast (ReliableSenderMap)

variable {C : Type}

/-- The message of a call, without its oneshot sender. -/
inductive Request (C : Type) where
  | add (nodeId : String) (handle : C)
  | remove (nodeId : String)
  | getMembers

/-- What the actor sends through the oneshot. -/
inductive Response (C : Type) where
  | added
  | removed (handle : Option C)
  | members (snapshot : ReliableSenderMap C)

/-- What a call returns: `Ok(())`, `Ok` of a snapshot, or an error. -/
inductive Outcome (M : Type) where
  | ok
  | members (snapshot : M)
  | err (message : String)

def Outcome.map {M M' : Type} (f : M → M') : Outcome M → Outcome M'
  | .ok => .ok
  | .members snapshot => .members (f snapshot)
  | .err message => .err message

/-- `run_membership_actor` with one message. -/
def actor (C : Type) : Object (ReliableSenderMap C) (Request C) (Response C) where
  handle := fun members => fun
    | .add nodeId handle => (MembershipActor.addMember members nodeId handle, .added)
    | .remove nodeId =>
        let r := MembershipActor.removeMember members nodeId
        (r.1, .removed r.2)
    | .getMembers => (members, .members members)

/-- What `add_member`, `remove_member` and `get_members` make of the response. -/
def outcome : Response C → Outcome (ReliableSenderMap C)
  | .added => .ok
  | .removed (some _) => .ok
  | .removed none => .err "Error removing member"
  | .members snapshot => .members snapshot

/-- The handle and its callers, from `MembershipHandle::start` on. -/
abbrev machine (C : Type) :=
  Actor.machine (actor C) Registration.capacity

/-- What the callers see: each map by what it has under each address. -/
def seen (tr : List (Actor.Event (Request C) (Response C))) :
    List (Action (Request C) (Outcome (String → Option C))) :=
  (Actor.history tr).map (Action.mapReply fun r => (outcome r).map fun members a => members.lookup a)

/-- The membership as it is meant: a map from addresses to connections. -/
def spec (C : Type) : Object (String → Option C) (Request C) (Outcome (String → Option C)) where
  handle := fun members => fun
    | .add nodeId handle => (Function.update members nodeId (some handle), .ok)
    | .remove nodeId =>
        (Function.update members nodeId none,
          if (members nodeId).isSome then .ok else .err "Error removing member")
    | .getMembers => (members, .members members)

/-- The actor does to its map what the specification says. -/
theorem spec_handle_lookup (members : ReliableSenderMap C) (request : Request C) :
    (spec C).handle (fun a => members.lookup a) request =
      (fun a => ((actor C).handle members request).1.lookup a,
        (outcome ((actor C).handle members request).2).map fun members a => members.lookup a) := by
  cases request with
  | add nodeId handle =>
      refine Prod.ext (funext fun a => ?_) rfl
      show Function.update (fun a => members.lookup a) nodeId (some handle) a =
        (members.insert nodeId handle).lookup a
      rw [HashMap.lookup_insert_eq_ite, Function.update_apply]
  | remove nodeId =>
      refine Prod.ext (funext fun a => ?_) ?_
      · show Function.update (fun a => members.lookup a) nodeId none a = (members.erase nodeId).lookup a
        by_cases ha : a = nodeId
        · rw [ha, Function.update_self, AList.lookup_erase]
        · rw [Function.update_of_ne ha, AList.lookup_erase_ne ha]
      · show (if (members.lookup nodeId).isSome then Outcome.ok else .err "Error removing member") =
          (outcome (.removed (members.lookup nodeId))).map _
        cases members.lookup nodeId <;> rfl
  | getMembers => rfl

/-- **The membership handle is linearizable.**  However the calls overlap, wait for room in the channel
and are given up: there is an order of them that respects which call returned before which was invoked,
and in which the map of addresses gives exactly what the calls returned. -/
theorem linearizable_of_run {tr : List (Actor.Event (Request C) (Response C))}
    {s : Actor (ReliableSenderMap C) (Request C) (Response C)}
    (hrun : (machine C).Run (Actor.start ∅) tr s) :
    ∃ ops, (spec C).Linearization (fun _ => none) (seen tr) ops fun a => s.object.lookup a := by
  have hlinear : (spec C).Linearization (fun _ => none) (seen tr) _ fun a => s.object.lookup a :=
    (Actor.linearization_of_run hrun).map (f := fun members a => members.lookup a) spec_handle_lookup
  exact ⟨_, hlinear⟩

/-- A member is added, and then two calls remove it; the call that came second is handled first. -/
def bothRemove : List (Actor.Input (Request Unit)) :=
  [.invoke (.add "127.0.0.1:50001" ()), .send 0, .handle, .finish 0,
    .invoke (.remove "127.0.0.1:50001"), .invoke (.remove "127.0.0.1:50001"), .send 2, .send 1,
    .handle, .handle, .finish 1, .finish 2]

theorem linearizable_of_run_bothRemove :
    ∃ tr s, (machine Unit).exec (Actor.start ∅) bothRemove = some (s, tr) ∧
      seen tr = [.invoked 0 (.add "127.0.0.1:50001" ()), .returned 0 .ok,
        .invoked 1 (.remove "127.0.0.1:50001"), .invoked 2 (.remove "127.0.0.1:50001"),
        .returned 1 (.err "Error removing member"), .returned 2 .ok] ∧
      ∃ ops, (spec Unit).Linearization (fun _ => none) (seen tr) ops fun a => s.object.lookup a := by
  obtain ⟨tr, s, hexec, hseen⟩ : ∃ tr s,
      (machine Unit).exec (Actor.start ∅) bothRemove = some (s, tr) ∧
      seen tr = [.invoked 0 (.add "127.0.0.1:50001" ()), .returned 0 .ok,
        .invoked 1 (.remove "127.0.0.1:50001"), .invoked 2 (.remove "127.0.0.1:50001"),
        .returned 1 (.err "Error removing member"), .returned 2 .ok] := ⟨_, _, rfl, rfl⟩
  exact ⟨tr, s, hexec, hseen, linearizable_of_run (Machine.run_of_exec hexec)⟩

end FrostFederation.Node.MembershipHandle
