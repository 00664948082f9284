/-
  Flowchart.Graph

  The graph of a drawing: its live elements and arrows in the order they were
  made, and which element is the entry.  Every element also lists the arrows
  that leave it; the editing operations keep that list and the arrows in step.
-/

import Flowchart.Element

namespace Flowchart

/-- Live elements and arrows, oldest first, and how many were ever made. -/
structure Graph where
  elements : List Element := []
  arrows : List Arrow := []
  entry : Option ElementId := none
  elementsMade : Nat := 0
  arrowsMade : Nat := 0
deriving DecidableEq, Repr

namespace Graph

/-- A drawing with nothing on it. -/
def empty : Graph := {}

/-! ## Looking things up -/

/-- The live element with this number. -/
def element? (g : Graph) (x : ElementId) : Option Element :=
  g.elements.find? fun e => e.id = x

/-- The live arrow with this number. -/
def arrow? (g : Graph) (a : ArrowId) : Option Arrow :=
  g.arrows.find? fun arrow => arrow.id = a

/-- The element is on the drawing. -/
def contains (g : Graph) (x : ElementId) : Bool :=
  (g.element? x).isSome

/-- The numbers of the live elements, oldest first. -/
def ids (g : Graph) : List ElementId :=
  g.elements.map Element.id

/-- The element is on the drawing and is a branch. -/
def isBranch (g : Graph) (x : ElementId) : Bool :=
  match g.element? x with
  | some e => e.kind = .branch
  | none => false

/-! ## Following arrows -/

/-- The anchored arrow with this number, paired with the element it points at. -/
def anchored? (g : Graph) (a : ArrowId) : Option (ElementId × Arrow) :=
  match g.arrow? a with
  | none => none
  | some arrow => arrow.target.map fun target => (target, arrow)

/-- The anchored arrows that leave an element, with their targets, oldest first. -/
def outgoing (g : Graph) (x : ElementId) : List (ElementId × Arrow) :=
  match g.element? x with
  | none => []
  | some e => e.outgoing.filterMap g.anchored?

/-- The elements that the anchored arrows leaving `x` point at, oldest arrow first. -/
def targets (g : Graph) (x : ElementId) : List ElementId :=
  (g.outgoing x).map Prod.fst

/-! ## Changing one element or arrow in place -/

/-- Changes the element with this number and leaves all others. -/
def modifyElement (g : Graph) (x : ElementId) (f : Element → Element) : Graph :=
  { g with elements := g.elements.map fun e => if e.id = x then f e else e }

/-- Changes the arrow with this number and leaves all others. -/
def modifyArrow (g : Graph) (a : ArrowId) (f : Arrow → Arrow) : Graph :=
  { g with arrows := g.arrows.map fun arrow => if arrow.id = a then f arrow else arrow }

end Graph

end Flowchart
