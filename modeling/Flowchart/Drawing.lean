/-
  Flowchart.Drawing

  The rules an arrow has to meet while it is being drawn: its source has room
  for it, it does not point at the entry, and it closes no loop that runs
  through branches only (such a loop would never run an action).
-/

import Flowchart.Defect
import Flowchart.Graph
import Flowchart.Walk

namespace Flowchart
namespace Graph

/-- Refuses another arrow at an element whose places are all taken. -/
def checkRoom (g : Graph) (source : ElementId) : Except Defect Unit :=
  match g.element? source with
  | none => .ok ()
  | some e => if e.isFull then .error (.noRoom source e.kind.capacity) else .ok ()

/-- Where a branch leads; nothing follows from any other element. -/
def branchTargets (g : Graph) (x : ElementId) : List ElementId :=
  if g.isBranch x then g.targets x else []

/-- The elements a walk from `x` meets that goes on from branches only. -/
def branchWalk (g : Graph) (x : ElementId) : List ElementId :=
  walk (fun y => (g.branchTargets y).reverse) g.ids [x]

/-- Refuses an arrow between two branches when its source can already be reached
    from its target through branches alone. -/
def checkLoop (g : Graph) (source target : ElementId) : Except Defect Unit :=
  if g.isBranch source ∧ g.isBranch target ∧ source ∈ g.branchWalk target then
    .error (.branchLoop source target)
  else
    .ok ()

/-- Refuses an arrow that points at the entry or closes a loop of branches. -/
def checkTarget (g : Graph) (source target : ElementId) : Except Defect Unit :=
  if g.entry = some target then .error .arrowToEntry else g.checkLoop source target

/-- All the rules for a new arrow; one whose end is still loose only needs room. -/
def checkArrow (g : Graph) (source : ElementId) (target : Option ElementId) :
    Except Defect Unit :=
  match g.checkRoom source with
  | .error defect => .error defect
  | .ok () =>
      match target with
      | none => .ok ()
      | some target => g.checkTarget source target

end Graph
end Flowchart
