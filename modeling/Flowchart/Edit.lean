/-
  Flowchart.Edit

  Editing a drawing.  An edit either gives the drawing after it or says why it
  is refused, and a refused edit changes nothing.  `Graph.ofEdits` is the
  drawing that a list of edits leads to from the empty one.
-/

import Flowchart.Drawing

namespace Flowchart

/-! ## Refusals -/

/-- Why an edit is refused. -/
inductive Refusal where
  /-- The element is not on the drawing. -/
  | noElement (element : ElementId)
  /-- The arrow is not on the drawing. -/
  | noArrow (arrow : ArrowId)
  /-- There is an entry already. -/
  | secondEntry (entry : ElementId)
  /-- The arrow has no loose end. -/
  | alreadyAnchored (arrow : ArrowId)
  /-- The arrow would break a rule. -/
  | broken (defect : Defect)
deriving DecidableEq, Repr

/-- The short name under which the refusal is filed. -/
def Refusal.code : Refusal → String
  | .broken defect => defect.code
  | _ => "Graph"

/-- The sentence that tells the user why. -/
def Refusal.message : Refusal → String
  | .noElement element => "Element " ++ element.text ++ " does not exist in the diagram"
  | .noArrow arrow => "Arrow " ++ arrow.text ++ " does not exist in the diagram"
  | .secondEntry entry => "The diagram already has an entry element (" ++ entry.text ++ ")"
  | .alreadyAnchored arrow => "Arrow " ++ arrow.text ++ " is already anchored at both ends"
  | .broken defect => defect.message

namespace Graph

/-! ## Preconditions -/

/-- The element has to be on the drawing. -/
def requireElement (g : Graph) (x : ElementId) : Except Refusal Unit :=
  if g.contains x then .ok () else .error (.noElement x)

/-- A rule for arrows has to hold. -/
def requireRule (check : Except Defect Unit) : Except Refusal Unit :=
  check.mapError .broken

/-! ## Elements -/

/-- Puts a new element on the drawing, which may hold one entry only. -/
def addElement (g : Graph) (kind : Kind) (script : Option String) :
    Except Refusal (ElementId × Graph) :=
  match kind, g.entry with
  | .entry, some entry => .error (.secondEntry entry)
  | _, _ =>
      let x : ElementId := ⟨g.elementsMade⟩
      .ok (x, { g with
        elements := g.elements ++ [{ id := x, kind, script }]
        entry := if kind = .entry then some x else g.entry
        elementsMade := g.elementsMade + 1 })

/-- Takes arrows off the list of an element. -/
def detach (gone : List ArrowId) (e : Element) : Element :=
  { e with outgoing := e.outgoing.filter fun a => a ∉ gone }

/-- Takes an element off the drawing, with every arrow that starts or ends at it. -/
def removeElement (g : Graph) (x : ElementId) : Except Refusal (Element × Graph) :=
  match g.element? x with
  | none => .error (.noElement x)
  | some e =>
      let gone := (g.arrows.filter fun a => a.touches x).map Arrow.id
      .ok (e, { g with
        elements := (g.elements.filter fun e => e.id ≠ x).map (detach gone)
        arrows := g.arrows.filter fun a => !a.touches x
        entry := if g.entry = some x then none else g.entry })

/-- Gives an element a new script, or none. -/
def setScript (g : Graph) (x : ElementId) (script : Option String) : Except Refusal Graph := do
  g.requireElement x
  return g.modifyElement x fun e => { e with script }

/-! ## Arrows -/

/-- Puts a new arrow on the drawing and on the list of its source. -/
def insertArrow (g : Graph) (source : ElementId) (target : Option ElementId)
    (label : Option Label) : ArrowId × Graph :=
  let a : ArrowId := ⟨g.arrowsMade⟩
  let listed := g.modifyElement source fun e => { e with outgoing := e.outgoing ++ [a] }
  (a, { listed with
    arrows := g.arrows ++ [{ id := a, source, target, label }]
    arrowsMade := g.arrowsMade + 1 })

/-- Starts an arrow whose end is still loose.  It takes up room at its source. -/
def beginArrow (g : Graph) (source : ElementId) (label : Option Label) :
    Except Refusal (ArrowId × Graph) := do
  g.requireElement source
  requireRule (g.checkRoom source)
  return g.insertArrow source none label

/-- Drops the loose end of an arrow on an element. -/
def anchorArrow (g : Graph) (a : ArrowId) (target : ElementId) : Except Refusal Graph :=
  match g.arrow? a with
  | none => .error (.noArrow a)
  | some arrow =>
      if arrow.isAnchored then .error (.alreadyAnchored a)
      else do
        g.requireElement target
        requireRule (g.checkTarget arrow.source target)
        return g.modifyArrow a fun arrow => { arrow with target := some target }

/-- Draws an arrow from one element to another under all the rules. -/
def drawArrow (g : Graph) (source target : ElementId) (label : Option Label) :
    Except Refusal (ArrowId × Graph) := do
  g.requireElement source
  g.requireElement target
  requireRule (g.checkArrow source (some target))
  return g.insertArrow source (some target) label

/-- Draws an arrow without asking the rules, for drawings made elsewhere. -/
def drawUnchecked (g : Graph) (source target : ElementId) (label : Option Label) :
    Except Refusal (ArrowId × Graph) := do
  g.requireElement source
  g.requireElement target
  return g.insertArrow source (some target) label

/-- Takes an arrow off the drawing and off the list of its source. -/
def removeArrow (g : Graph) (a : ArrowId) : Except Refusal (Arrow × Graph) :=
  match g.arrow? a with
  | none => .error (.noArrow a)
  | some arrow =>
      let delisted := g.modifyElement arrow.source (detach [a])
      .ok (arrow, { delisted with arrows := g.arrows.filter fun arrow => arrow.id ≠ a })

/-- Gives an arrow a new label, or none. -/
def relabel (g : Graph) (a : ArrowId) (label : Option Label) : Except Refusal Graph :=
  match g.arrow? a with
  | none => .error (.noArrow a)
  | some _ => .ok (g.modifyArrow a fun arrow => { arrow with label })

end Graph

/-! ## Edits as values -/

/-- One edit of a drawing. -/
inductive Edit where
  | addElement (kind : Kind) (script : Option String)
  | removeElement (element : ElementId)
  | beginArrow (source : ElementId) (label : Option Label)
  | anchorArrow (arrow : ArrowId) (target : ElementId)
  | drawArrow (source target : ElementId) (label : Option Label)
  | drawUnchecked (source target : ElementId) (label : Option Label)
  | removeArrow (arrow : ArrowId)
  | relabel (arrow : ArrowId) (label : Option Label)
  | setScript (element : ElementId) (script : Option String)
deriving DecidableEq, Repr

/-- What an edit gives back beside the drawing. -/
inductive Edit.Reply where
  | newElement (element : ElementId)
  | newArrow (arrow : ArrowId)
  | oldElement (element : Element)
  | oldArrow (arrow : Arrow)
  | done
deriving DecidableEq, Repr

namespace Graph

/-- Carries out one edit. -/
def apply (g : Graph) : Edit → Except Refusal (Edit.Reply × Graph)
  | .addElement kind script => do
      let (x, g') ← g.addElement kind script
      return (.newElement x, g')
  | .removeElement x => do
      let (e, g') ← g.removeElement x
      return (.oldElement e, g')
  | .beginArrow source label => do
      let (a, g') ← g.beginArrow source label
      return (.newArrow a, g')
  | .anchorArrow a target => do
      let g' ← g.anchorArrow a target
      return (.done, g')
  | .drawArrow source target label => do
      let (a, g') ← g.drawArrow source target label
      return (.newArrow a, g')
  | .drawUnchecked source target label => do
      let (a, g') ← g.drawUnchecked source target label
      return (.newArrow a, g')
  | .removeArrow a => do
      let (arrow, g') ← g.removeArrow a
      return (.oldArrow arrow, g')
  | .relabel a label => do
      let g' ← g.relabel a label
      return (.done, g')
  | .setScript x script => do
      let g' ← g.setScript x script
      return (.done, g')

/-- The drawing after an edit; a refused edit leaves it as it was. -/
def after (g : Graph) (edit : Edit) : Graph :=
  match g.apply edit with
  | .ok (_, g') => g'
  | .error _ => g

/-- The drawing that a list of edits leads to. -/
def ofEdits (edits : List Edit) : Graph :=
  edits.foldl after empty

end Graph

end Flowchart
