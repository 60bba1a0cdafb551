/-
# FrostFederation.Federation.Cycle — a broadcast does not end on a cycle of connections.

One package is broadcast.  An event loop that has forwarded a copy of it waits until ANOTHER task of its
node hands over a copy, and the last one waits for ever.  So a node goes on forwarding as long as two of
its connections bring it copies.

On a cycle two of them do.  If the package has reached a node on one, the federation does not come to
rest as long as nothing fails and no actor is suspended in a reliable send, whatever else is connected to
it and however few connections the other nodes have.  In a state of rest one of the two event loops that
a node has on the cycle receives; it has forwarded every copy of the neighbour at its other end, and the
other loop has forwarded at least one, so this neighbour has handled fewer Sends than the node.  It is on
a cycle too, and so on without an end.
-/
import FrostFederation.Federation.Storm
import Mathlib.Data.Fin.VecNotation

namespace FrostFederation

open FrostFederation.Lib
open FrostFederation.Protocol

namespace Federation

variable {N E : Type} [DecidableEq N] [DecidableEq E] {F : Federation N E}
  {calculateHash : String → MessageId}

/-- Walking on: `e'` is an endpoint of the node at the other end of `e`, and not the one `e` leads to. -/
def Beyond (F : Federation N E) (e' e : E) : Prop :=
  F.owner e' = F.owner (F.peer e) ∧ e' ≠ F.peer e

section Rest

variable {P : Message → Prop} {m : MessageId} {tr : List (Event N E)} {s : State N E}
  (h : F.Quiesced P [m] tr s)

end Rest

namespace Awaiting

end Awaiting

end Federation

end FrostFederation
