/-
  Flowchart.Diagram

  A diagram: a drawing with the facts about it that are kept beside it.
-/

import Flowchart.Graph

namespace Flowchart

/-- A drawing with its name and description, the name it was first saved under
    if that has changed, and its version. -/
structure Diagram where
  name : String := ""
  description : String := ""
  formerName : Option String := none
  version : UInt32 := 0
  graph : Graph := .empty
deriving DecidableEq, Repr

end Flowchart
