/-
  Flowchart.Element

  The two sorts of things on a drawing: elements (the boxes) and the arrows
  between them.  Each carries a number that is handed out once and never
  again, so an element or arrow can be spoken of after it has been removed.
-/

namespace Flowchart

/-! ## Numbers -/

/-- The number of an element: how many elements had been made before it. -/
structure ElementId where
  index : Nat
deriving DecidableEq, Repr

/-- The number of an arrow: how many arrows had been made before it. -/
structure ArrowId where
  index : Nat
deriving DecidableEq, Repr

/-- How an element is spoken of in a message. -/
def ElementId.text (x : ElementId) : String :=
  "element #" ++ Nat.repr x.index

/-- How an arrow is spoken of in a message. -/
def ArrowId.text (a : ArrowId) : String :=
  "arrow #" ++ Nat.repr a.index

/-! ## Elements -/

/-- What an element does when the flow comes to it. -/
inductive Kind where
  /-- The flow starts here. -/
  | entry
  /-- A script is run and the flow goes on. -/
  | action
  /-- A script is run and its outcome chooses the way. -/
  | branch
deriving DecidableEq, Repr

/-- How many arrows may leave an element of this kind. -/
def Kind.capacity : Kind → Nat
  | .entry => 1
  | .action => 1
  | .branch => 2

/-- The word a definition uses for this kind. -/
def Kind.word : Kind → String
  | .entry => "entry"
  | .action => "action"
  | .branch => "branch"

/-- An element with its script and the arrows that leave it, oldest first. -/
structure Element where
  id : ElementId
  kind : Kind
  script : Option String
  outgoing : List ArrowId := []
deriving DecidableEq, Repr

/-- Every arrow the kind allows has been drawn, loose ones counted. -/
def Element.isFull (e : Element) : Bool :=
  e.kind.capacity ≤ e.outgoing.length

/-- More arrows leave the element than its kind allows. -/
def Element.isOverfull (e : Element) : Bool :=
  e.kind.capacity < e.outgoing.length

/-- The element has nothing to run: no script, or the empty one. -/
def Element.isUnscripted (e : Element) : Bool :=
  match e.script with
  | none => true
  | some script => script = ""

/-! ## Arrows -/

/-- The outcome of a branch that an arrow stands for. -/
inductive Label where
  | yes
  | no
deriving DecidableEq, Repr

/-- The word a definition uses for this label. -/
def Label.word : Label → String
  | .yes => "yes"
  | .no => "no"

/-- An arrow.  Its loose end has no target until it is dropped on an element. -/
structure Arrow where
  id : ArrowId
  source : ElementId
  target : Option ElementId
  label : Option Label
deriving DecidableEq, Repr

/-- Both ends of the arrow are fastened. -/
def Arrow.isAnchored (a : Arrow) : Bool :=
  a.target.isSome

/-- The arrow starts or ends at the element. -/
def Arrow.touches (a : Arrow) (x : ElementId) : Bool :=
  a.source = x ∨ a.target = some x

end Flowchart
