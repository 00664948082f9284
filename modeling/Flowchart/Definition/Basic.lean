/-
  Flowchart.Definition.Basic

  A diagram as its author writes it down: elements under keys of the author's
  choice, and arrows between keys.
-/

import Flowchart.Element

namespace Flowchart

/-- An element under its key. -/
structure ElementSpec where
  key : String := ""
  kind : Kind := .action
  script : Option String := none
deriving DecidableEq, Repr

/-- An arrow between two keys. -/
structure ArrowSpec where
  source : String := ""
  target : String := ""
  label : Option Label := none
deriving DecidableEq, Repr

/-- A diagram by its elements and arrows. -/
structure Definition where
  name : String := ""
  description : String := ""
  formerName : Option String := none
  version : UInt32 := 0
  elements : List ElementSpec := []
  arrows : List ArrowSpec := []
deriving DecidableEq, Repr

end Flowchart
