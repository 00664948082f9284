/-
  Flowchart.Sketch

  The simplest source of definitions: blocks of code to be run one after the
  other.
-/

import Flowchart.Definition.Build

namespace Flowchart

/-- A block of code under a label. -/
structure Block where
  label : String
  code : String
deriving DecidableEq, Repr

namespace Sketch

/-- The key of the entry of a sketch. -/
def startKey : String := "start"

/-- The arrows that lead from one block to the next, the first from `previous`. -/
def chain (previous : String) : List Block → List ArrowSpec
  | [] => []
  | block :: blocks =>
      { source := previous, target := block.label } :: chain block.label blocks

/-- The definition of a sketch: an entry, and an action for every block. -/
def definition (blocks : List Block) : Definition where
  name := "sketch"
  elements :=
    { key := startKey, kind := .entry }
      :: blocks.map fun block =>
        { key := block.label, kind := .action, script := some block.code }
  arrows := chain startKey blocks

/-- The diagram of a sketch. -/
def build (blocks : List Block) : Except ImportError Diagram :=
  (definition blocks).build

end Sketch

end Flowchart
