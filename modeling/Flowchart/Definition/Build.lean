/-
  Flowchart.Definition.Build

  From a definition to a diagram: its elements are put on an empty drawing in
  order, then its arrows are drawn, under the rules for arrows or without them.
-/

import Flowchart.Definition.Basic
import Flowchart.Diagram
import Flowchart.Edit
import Flowchart.Json.Fault

namespace Flowchart

/-- Why a definition does not become a diagram. -/
inductive ImportError where
  /-- The text of the definition cannot be read. -/
  | unreadable (fault : Json.Fault)
  /-- Two elements have this key. -/
  | duplicateKey (key : String)
  /-- An arrow names a key that no element has. -/
  | unknownKey (missing source : String)
  /-- The edit for this element or arrow is refused. -/
  | refused (key : String) (refusal : Refusal)
deriving DecidableEq, Repr

namespace ImportError

/-- The short name under which the error is filed. -/
def code : ImportError → String
  | .refused _ refusal => refusal.code
  | _ => "Definition"

/-- The sentence that tells the user why. -/
def message : ImportError → String
  | .unreadable fault => "Failed to parse diagram JSON: " ++ fault.message
  | .duplicateKey key => "Element '" ++ key ++ "' is declared more than once"
  | .unknownKey missing source =>
      "Arrow from '" ++ source ++ "' refers to unknown element '" ++ missing ++ "'"
  | .refused key refusal =>
      "Element '" ++ key ++ "' could not be added: " ++ refusal.message

end ImportError

/-! ## Elements -/

/-- The elements that keys stand for. -/
abbrev KeyTable := List (String × ElementId)

/-- The element a key stands for. -/
def KeyTable.element? (keys : KeyTable) (key : String) : Option ElementId :=
  (List.find? (fun row => row.1 = key) keys).map Prod.snd

/-- Puts elements on a drawing, each under a key of its own. -/
def placeElements (keys : KeyTable) (g : Graph) :
    List ElementSpec → Except ImportError (KeyTable × Graph)
  | [] => .ok (keys, g)
  | spec :: specs =>
      match keys.element? spec.key with
      | some _ => .error (.duplicateKey spec.key)
      | none =>
          match g.addElement spec.kind spec.script with
          | .error refusal => .error (.refused spec.key refusal)
          | .ok (x, g') => placeElements (keys ++ [(spec.key, x)]) g' specs

/-! ## Arrows -/

/-- The element that one end of an arrow names. -/
def ArrowSpec.resolve (spec : ArrowSpec) (keys : KeyTable) (key : String) :
    Except ImportError ElementId :=
  match keys.element? key with
  | some x => .ok x
  | none => .error (.unknownKey key spec.source)

/-- How an arrow is spoken of when it is refused. -/
def ArrowSpec.text (spec : ArrowSpec) : String :=
  spec.source ++ " -> " ++ spec.target

/-- Draws one arrow. -/
def placeArrow (checked : Bool) (keys : KeyTable) (g : Graph) (spec : ArrowSpec) :
    Except ImportError Graph := do
  let source ← spec.resolve keys spec.source
  let target ← spec.resolve keys spec.target
  let drawn :=
    if checked then g.drawArrow source target spec.label
    else g.drawUnchecked source target spec.label
  match drawn with
  | .error refusal => .error (.refused spec.text refusal)
  | .ok (_, g') => .ok g'

/-- Draws arrows in order. -/
def placeArrows (checked : Bool) (keys : KeyTable) (g : Graph) :
    List ArrowSpec → Except ImportError Graph
  | [] => .ok g
  | spec :: specs =>
      match placeArrow checked keys g spec with
      | .error error => .error error
      | .ok g' => placeArrows checked keys g' specs

/-! ## Diagrams -/

namespace Definition

/-- Makes the diagram; `checked` tells whether the rules for arrows are asked. -/
def buildWith (d : Definition) (checked : Bool) : Except ImportError Diagram := do
  let (keys, g) ← placeElements [] .empty d.elements
  let graph ← placeArrows checked keys g d.arrows
  return { name := d.name
           description := d.description
           formerName := d.formerName
           version := d.version
           graph }

/-- Makes the diagram under the rules for arrows. -/
def build (d : Definition) : Except ImportError Diagram :=
  d.buildWith true

/-- Makes the diagram without asking the rules for arrows. -/
def buildUnchecked (d : Definition) : Except ImportError Diagram :=
  d.buildWith false

end Definition

end Flowchart
