/-
  Flowchart.Way

  Where the flow goes after an element.  The same three cases describe an
  element on the drawing and the routine it is compiled to, so the type is
  open in what is being pointed at.
-/

import Flowchart.Graph

namespace Flowchart

/-- The flow stops, goes on to one place, or chooses between two. -/
inductive Way (α : Type) where
  | stop
  | next (place : α)
  | fork (yes no : α)
deriving DecidableEq, Repr

namespace Way

/-- The same way between other places. -/
def map {α β : Type} (f : α → β) : Way α → Way β
  | .stop => .stop
  | .next place => .next (f place)
  | .fork yes no => .fork (f yes) (f no)

/-- The places the flow may go to, the one for `yes` first. -/
def toList {α : Type} : Way α → List α
  | .stop => []
  | .next place => [place]
  | .fork yes no => [yes, no]

end Way

namespace Graph

/-- Chooses by label which of two arrows stands for which outcome.  The second
    arrow takes every outcome that the label of the first does not claim. -/
def fork (first second : ElementId × Arrow) : Way ElementId :=
  .fork (if first.2.label = some .yes then first.1 else second.1)
    (if first.2.label = some .no then first.1 else second.1)

/-- Where the flow goes after an element; arrows beyond the second are not used. -/
def way (g : Graph) (x : ElementId) : Way ElementId :=
  match g.outgoing x with
  | [] => .stop
  | [(next, _)] => .next next
  | first :: second :: _ => fork first second

end Graph

end Flowchart
