/-
  Flowchart.Script.Routine

  The text of a routine.  Each element of a drawing becomes one routine of the
  generated script: it runs the element's own script and then names the
  routine to run next.
-/

import Flowchart.Text.Blank
import Flowchart.Text.Lines
import Flowchart.Way

namespace Flowchart

/-- A routine: its name, the script it runs, and the routines it may go on to. -/
structure Routine where
  name : String
  body : String
  way : Way String
deriving DecidableEq, Repr

namespace Routine

/-! ## Layout -/

/-- The line, moved to the right by some levels. -/
def indent (levels : Nat) (line : String) : String :=
  String.join (List.replicate levels "    ") ++ line

/-- A line of a body, moved into place; a blank line is left empty. -/
def bodyLine (line : String) : String :=
  if Text.isBlankLine line then "" else indent 3 line

/-- The body as a function that is called at once; `binding` receives its value. -/
def bodyLines (binding body : String) : List String :=
  [indent 2 (binding ++ "(function () \x7b")]
    ++ (Text.lines body).map bodyLine
    ++ [indent 2 "\x7d)();"]

/-- The line that hands the next routine to the driver. -/
def handOver (levels : Nat) (name : String) : String :=
  indent levels ("env.execute(" ++ name ++ ");")

/-! ## Routines -/

/-- What receives the value of the body: only a fork has a use for it. -/
def binding : Way String → String
  | .fork _ _ => "var outcome = "
  | _ => ""

/-- The lines that go on from a routine. -/
def wayLines : Way String → List String
  | .stop => []
  | .next name => [handOver 2 name]
  | .fork yes no =>
      [indent 2 "if (outcome) \x7b", handOver 3 yes, indent 2 "\x7d else \x7b", handOver 3 no,
       indent 2 "\x7d"]

/-- The lines of a routine. -/
def lines (r : Routine) : List String :=
  [indent 1 ("function " ++ r.name ++ "(env) \x7b")]
    ++ bodyLines (binding r.way) r.body
    ++ wayLines r.way
    ++ [indent 1 "\x7d"]

end Routine

end Flowchart
