/-
  Flowchart.Inspection

  The rules a finished drawing has to meet before it is compiled.  `inspect`
  stops at the first rule that is broken; `report` lists every defect.
-/

import Flowchart.Drawing

namespace Flowchart
namespace Graph

/-! ## The entry -/

/-- The entry, which has to be there and to point at no more than one element. -/
def checkEntry (g : Graph) : Except Defect ElementId :=
  match g.entry with
  | none => .error .noEntry
  | some entry =>
      let children := (g.outgoing entry).length
      if 1 < children then .error (.entryForks children) else .ok entry

/-! ## Limits on arrows -/

/-- No element has more arrows than its kind allows, and none points at the entry. -/
def checkLimits (g : Graph) : Except Defect Unit :=
  match g.elements.find? Element.isOverfull with
  | some e => .error (.noRoom e.id e.kind.capacity)
  | none =>
      match g.entry with
      | none => .ok ()
      | some entry =>
          if g.arrows.any fun a => a.target = some entry then .error .arrowToEntry else .ok ()

/-! ## Reaching every element -/

/-- The elements met on a walk from `x` along anchored arrows.  The newest arrow
    of an element is followed first. -/
def walkFrom (g : Graph) (x : ElementId) : List ElementId :=
  walk (fun y => (g.targets y).reverse) g.ids [x]

/-- The elements that can be reached from the entry, in the order of the walk. -/
def reachable (g : Graph) : Except Defect (List ElementId) :=
  match g.entry with
  | none => .error .noEntry
  | some entry => .ok (g.walkFrom entry)

/-- The elements that cannot be reached from the entry, oldest first. -/
def unreachable (g : Graph) : Except Defect (List ElementId) :=
  match g.reachable with
  | .error defect => .error defect
  | .ok reached => .ok (g.ids.filter fun x => x ∉ reached)

/-- Refuses the first element of a list, as the defect it has. -/
def refuseFirst (defect : ElementId → Defect) : List ElementId → Except Defect Unit
  | [] => .ok ()
  | x :: _ => .error (defect x)

/-- Every element can be reached from the entry. -/
def checkReachability (g : Graph) : Except Defect Unit :=
  match g.unreachable with
  | .error defect => .error defect
  | .ok missed => refuseFirst .unreachable missed

/-! ## Scripts -/

/-- The elements beside the entry that have nothing to run, oldest first.  A
    script of blanks is a script. -/
def unscripted (g : Graph) : List ElementId :=
  (g.elements.filter fun e => e.kind ≠ .entry ∧ e.isUnscripted).map Element.id

/-- Every element beside the entry has a script. -/
def checkScripts (g : Graph) : Except Defect Unit :=
  refuseFirst .unscripted g.unscripted

/-! ## Labels -/

/-- How many of these arrows carry the label. -/
def countLabel (label : Label) (arrows : List (ElementId × Arrow)) : Nat :=
  arrows.countP fun a => a.2.label = some label

/-- Two anchored arrows leave the element, one for each outcome. -/
def hasBothArms (g : Graph) (x : ElementId) : Bool :=
  let arrows := g.outgoing x
  arrows.length = 2 ∧ countLabel .yes arrows = 1 ∧ countLabel .no arrows = 1

/-- The branches that do not have one arrow for each outcome, oldest first. -/
def unlabelled (g : Graph) : List ElementId :=
  (g.elements.filter fun e => e.kind = .branch ∧ !g.hasBothArms e.id).map Element.id

/-- Every branch has one arrow for each outcome. -/
def checkLabels (g : Graph) : Except Defect Unit :=
  refuseFirst .unlabelled g.unlabelled

/-! ## All the rules together -/

/-- All the rules, in order, up to the first that is broken. -/
def inspect (g : Graph) : Except Defect Unit := do
  let _ ← g.checkEntry
  g.checkLimits
  g.checkReachability
  g.checkScripts
  g.checkLabels

/-- The defect that a check ends with, if any. -/
def defectOf {α : Type} : Except Defect α → List Defect
  | .error defect => [defect]
  | .ok _ => []

/-- Every defect of the drawing.  Without an entry nothing is called unreachable. -/
def report (g : Graph) : List Defect :=
  defectOf g.checkEntry
    ++ defectOf g.checkLimits
    ++ (match g.unreachable with
        | .error _ => []
        | .ok missed => missed.map .unreachable)
    ++ g.unscripted.map .unscripted
    ++ g.unlabelled.map .unlabelled

end Graph
end Flowchart
