/-
  Flowchart.Script.Compile

  From a diagram to its script.  Every element gets a symbol; the elements met
  on a walk from the entry become routines, in the order of the walk; the text
  is the routines between the lines that open and close the script.
-/

import Flowchart.Diagram
import Flowchart.Inspection
import Flowchart.Script.Basic
import Flowchart.Script.Trampoline

namespace Flowchart

/-! ## Options and errors -/

/-- How a diagram is compiled. -/
structure CompileOptions where
  /-- The symbol of the entry. -/
  entrySymbol : String := "entryFunction"
  /-- What the symbols of all other elements start with. -/
  stem : String := "function"
  /-- After how many rounds the driver stops. -/
  maxIterations : UInt32 := 100
  /-- Whether the whole inspection comes first. -/
  inspectFirst : Bool := false
deriving DecidableEq, Repr

/-- Why a diagram cannot be compiled. -/
inductive CompileError where
  | noEntry
  | entryForks (children : Nat)
  /-- The inspection found a defect that compiling alone would not mind. -/
  | invalid (defect : Defect)
deriving DecidableEq, Repr

namespace CompileError

/-- The two defects of the entry keep their own names. -/
def ofDefect : Defect → CompileError
  | .noEntry => .noEntry
  | .entryForks children => .entryForks children
  | defect => .invalid defect

/-- The short name under which the error is filed. -/
def code : CompileError → String
  | .noEntry => Defect.noEntry.code
  | .entryForks children => (Defect.entryForks children).code
  | .invalid defect => defect.code

/-- The sentence that tells the user why. -/
def message : CompileError → String
  | .noEntry => Defect.noEntry.message
  | .entryForks children => (Defect.entryForks children).message
  | .invalid defect => "The diagram failed validation: " ++ defect.message

end CompileError

/-! ## Symbols -/

/-- The symbols of a list of elements, where `count` symbols have been numbered
    before: the entry has its own symbol, the others are numbered from one. -/
def symbolTable (options : CompileOptions) (count : Nat) :
    List Element → List (ElementId × String)
  | [] => []
  | e :: rest =>
      if e.kind = .entry then
        (e.id, options.entrySymbol) :: symbolTable options count rest
      else
        (e.id, options.stem ++ Nat.repr (count + 1)) :: symbolTable options (count + 1) rest

/-- The symbol of an element in a table; one that is not in it has none. -/
def symbolIn (table : List (ElementId × String)) (x : ElementId) : String :=
  match table.find? fun row => row.1 = x with
  | some row => row.2
  | none => ""

namespace Graph

/-- The symbols of all live elements, oldest first. -/
def symbols (g : Graph) (options : CompileOptions) : List (ElementId × String) :=
  symbolTable options 0 g.elements

/-! ## Routines -/

/-- The script of an element, empty if it has none. -/
def body (g : Graph) (x : ElementId) : String :=
  match g.element? x with
  | some e => e.script.getD ""
  | none => ""

/-- The routine an element becomes, under a table of symbols. -/
def routine (g : Graph) (table : List (ElementId × String)) (x : ElementId) : Routine where
  name := symbolIn table x
  body := g.body x
  way := (g.way x).map (symbolIn table)

/-- The elements that become routines when the script starts at `start`, in the
    order of the walk that follows `yes` before `no`. -/
def emitted (g : Graph) (start : ElementId) : List ElementId :=
  walk (fun x => (g.way x).toList) g.ids [start]

/-- The routines of a script that starts at `start`. -/
def routines (g : Graph) (options : CompileOptions) (start : ElementId) : List Routine :=
  (g.emitted start).map (g.routine (g.symbols options))

/-- The lines of a script that starts at `start`. -/
def scriptLines (g : Graph) (options : CompileOptions) (start : ElementId) : List String :=
  Trampoline.openingLines
    ++ (g.routines options start).flatMap Routine.lines
    ++ Trampoline.closingLines options.entrySymbol options.maxIterations

/-! ## Compiling -/

/-- The entry from which a drawing is compiled, if it may be. -/
def startOf (g : Graph) (options : CompileOptions) : Except Defect ElementId := do
  if options.inspectFirst then
    g.inspect
  g.checkEntry

end Graph

/-- Compiles a diagram.  Without the inspection only the rules for the entry are
    asked; whatever else is wrong, what is there is written. -/
def Diagram.compile (d : Diagram) (options : CompileOptions) : Except CompileError Script :=
  match d.graph.startOf options with
  | .error defect => .error (.ofDefect defect)
  | .ok start =>
      .ok { source := Text.unlines (d.graph.scriptLines options start)
            name := d.name
            description := d.description }

end Flowchart
