/-
# FrostFederation.ReliableSender.Refused — clients whose frame the connection refuses.

`handle_message` first stores the waiter of the client, then hands its frame to the connection, and
does not look at what the connection says.  So a waiter is stored whether or not its frame was ever
accepted, and the one answer the actor can give is the `Ok` at an acknowledgement
(`Stepped.of_respond`): a client whose frame was refused waits for the acknowledgement of a number
that the peer has never seen.  In a run without a refusal every stored waiter has its frame on the
way; with one refusal there is a client that nobody will tell.
-/
import FrostFederation.ReliableSender.Exact

namespace FrostFederation.ReliableSender

open FrostFederation.Lib
open FrostFederation.Protocol

/-- The connection accepted the frame of `message` under number `n`. -/
def Event.Accepts (e : Event) (message : Message) (n : UInt64) : Prop :=
  Effect.connectionSend (.send message n) true ∈ e.effects

/-- The connection refused the frame of the client that waits on `tx`. -/
def Event.Refuses (e : Event) (tx : Oneshot) : Prop :=
  ∃ message n, e.command = .send message tx ∧
    Effect.connectionSend (.send message n) false ∈ e.effects

namespace SenderTask

/-- Every stored waiter has had its frame accepted, and every client whose frame was refused has been
answered with an error. -/
structure NoClientStranded (tr : List Event) (t : SenderTask) : Prop where
  accepted : ∀ n message tx, t.actor.waitingForAck.lookup n = some (message, tx) →
    ∃ e ∈ tr, e.Accepts message n
  answered : ∀ e ∈ tr, ∀ tx, e.Refuses tx → ∃ text, .error text ∈ answers tr tx

section Runs

variable {tr : List Event} {t t' : SenderTask} {i : Input} {e : Event} {n : UInt64}
  {message : Message} {tx : Oneshot}

/-- A step stores a waiter only with a frame that it hands to the connection. -/
theorem stored_step (hst : Stepped t e t')
    (hl : t'.actor.waitingForAck.lookup n = some (message, tx)) :
    t.actor.waitingForAck.lookup n = some (message, tx) ∨ e.Accepts message n ∨ e.Refuses tx := by
  cases hst with
  | @sent message' connected _ hcmd heff hwaiting =>
      rw [hwaiting, HashMap.lookup_insert_eq_ite] at hl
      split at hl
      · next hn =>
          obtain ⟨rfl, rfl⟩ := Prod.mk.inj (Option.some.inj hl)
          have hsent : Effect.connectionSend (.send message' n) connected ∈ e.effects := by
            rw [heff, hn]
            exact List.mem_append_right _ (List.mem_singleton.mpr rfl)
          cases connected with
          | true => exact Or.inr (Or.inl hsent)
          | false => exact Or.inr (Or.inr ⟨message', n, hcmd, hsent⟩)
      · exact Or.inl hl
  | received _ _ _ hactor =>
      rw [hactor] at hl
      exact Or.inl hl
  | acked _ _ _ _ hwaiting =>
      rw [hwaiting, HashMap.lookup_erase_eq_ite] at hl
      split at hl
      · cases hl
      · exact Or.inl hl
  | ackUnknown _ _ _ _ hactor =>
      rw [hactor] at hl
      exact Or.inl hl
  | passedUp _ _ _ hactor =>
      rw [hactor] at hl
      exact Or.inl hl

/-- A stored waiter has had its frame accepted or refused. -/
theorem handed_of_stored (hrun : machine.Run start tr t)
    (hl : t.actor.waitingForAck.lookup n = some (message, tx)) :
    ∃ e ∈ tr, e.Accepts message n ∨ e.Refuses tx := by
  induction hrun with
  | nil => cases hl
  | @snoc tr s s' i e _ hs _ ih =>
      rcases stored_step (stepped_of_step hs) hl with hold | hnow
      · obtain ⟨e', he', hhanded⟩ := ih hold
        exact ⟨e', List.mem_append_left _ he', hhanded⟩
      · exact ⟨e, by simp, hnow⟩

/-- No client is ever answered with an error. -/
theorem no_error_answer (hrun : machine.Run start tr t) (text : String) :
    .error text ∉ answers tr tx := by
  rw [mem_answers]
  rintro ⟨e, he, hmem⟩
  obtain ⟨pre, post, rfl⟩ := List.append_of_mem he
  obtain ⟨s, i, s', -, hs, -⟩ := hrun.around
  obtain ⟨herror, -⟩ := (stepped_of_step hs).of_respond hmem
  cases herror

/-- **No client is left waiting on a frame that was never sent, in exactly the runs in which the
connection refuses no client's frame.** -/
theorem noClientStranded_iff (hrun : machine.Run start tr t) :
    NoClientStranded tr t ↔ ∀ e ∈ tr, ∀ tx, ¬ e.Refuses tx := by
  constructor
  · intro h e he tx hrefused
    obtain ⟨text, herror⟩ := h.answered e he tx hrefused
    exact no_error_answer hrun text herror
  · intro hnever
    constructor
    · intro n message tx hl
      obtain ⟨e, he, haccepted | hrefused⟩ := handed_of_stored hrun hl
      · exact ⟨e, he, haccepted⟩
      · exact absurd hrefused (hnever e he tx)
    · intro e he tx hrefused
      exact absurd hrefused (hnever e he tx)

end Runs

/-- A client's Send that the connection accepts. -/
def sendAccepted : List Input := [.send (Message.package "a" "hello" 1) true]

/-- A client's Send that the connection refuses. -/
def sendRefused : List Input := [.send (Message.package "a" "hello" 1) false]

theorem noClientStranded_iff_sendAccepted :
    ∃ tr t, machine.exec start sendAccepted = some (t, tr) ∧
      (NoClientStranded tr t ↔ ∀ e ∈ tr, ∀ tx, ¬ e.Refuses tx) := by
  have hexec : machine.exec start sendAccepted = some (_, _) := rfl
  exact ⟨_, _, hexec, noClientStranded_iff (Machine.run_of_exec hexec)⟩

/-- **A client waits on a frame that was never sent.**  After one refused Send its waiter is stored,
the connection has accepted nothing, and the client has not been answered. -/
theorem stranded_sendRefused :
    ∃ tr t, machine.Run start tr t ∧ machine.exec start sendRefused = some (t, tr) ∧
      t.actor.waitingForAck.lookup 1 = some (Message.package "a" "hello" 1, 0) ∧
      answers tr 0 = [] ∧ ¬ NoClientStranded tr t := by
  have hexec : machine.exec start sendRefused = some (_, _) := rfl
  refine ⟨_, _, Machine.run_of_exec hexec, hexec, by decide, by decide, ?_⟩
  intro h
  obtain ⟨text, herror⟩ := h.answered _ (List.mem_singleton.mpr rfl) 0
    ⟨Message.package "a" "hello" 1, 1, rfl, List.mem_singleton.mpr rfl⟩
  cases herror

end SenderTask

end FrostFederation.ReliableSender
