/-
  Flowchart.Defect

  What can be wrong with a drawing, each with the short name a report files
  it under and the sentence shown to the user.
-/

import Flowchart.Element

namespace Flowchart

/-- A rule that a drawing breaks, or that a new arrow would break. -/
inductive Defect where
  /-- There is no entry element. -/
  | noEntry
  /-- The entry points at several elements. -/
  | entryForks (children : Nat)
  /-- An element has all the arrows, or more than, its kind allows. -/
  | noRoom (element : ElementId) (capacity : Nat)
  /-- An arrow points at the entry. -/
  | arrowToEntry
  /-- An arrow closes a loop that runs through branches only. -/
  | branchLoop (source target : ElementId)
  /-- No path leads from the entry to the element. -/
  | unreachable (element : ElementId)
  /-- The element has nothing to run. -/
  | unscripted (element : ElementId)
  /-- The branch does not have one arrow for each outcome. -/
  | unlabelled (element : ElementId)
deriving DecidableEq, Repr

/-- The short name under which the defect is filed. -/
def Defect.code : Defect → String
  | .noEntry => "MissingEntry"
  | .entryForks _ => "EntryMustHaveSingleChild"
  | .noRoom _ _ => "MaxChildrenReached"
  | .arrowToEntry => "CannotConnectToEntry"
  | .branchLoop _ _ => "HasAlwaysTrueLoop"
  | .unreachable _ => "NotAllElementsReachable"
  | .unscripted _ => "UnscriptedElements"
  | .unlabelled _ => "DiamondArrowNoLabel"

/-- The sentence that tells the user what is wrong. -/
def Defect.message : Defect → String
  | .noEntry => "The diagram must have an entry element"
  | .entryForks children =>
      "The entry element may only connect to a single element, but it connects to "
        ++ Nat.repr children
  | .noRoom element capacity =>
      "Element " ++ element.text ++ " already has the maximum of " ++ Nat.repr capacity
        ++ " outgoing arrows"
  | .arrowToEntry => "Arrows cannot point at the entry element"
  | .branchLoop source target =>
      "Connecting " ++ source.text ++ " to " ++ target.text
        ++ " would create a loop made only of conditions"
  | .unreachable element =>
      "Not all elements are reachable from the entry element (first unreachable: "
        ++ element.text ++ ")"
  | .unscripted element => "Element " ++ element.text ++ " has no script"
  | .unlabelled element =>
      "Condition element " ++ element.text ++ " needs exactly one 'yes' and one 'no' arrow"

end Flowchart
