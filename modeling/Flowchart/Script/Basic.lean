/-
  Flowchart.Script.Basic

  A compiled script: the generated text with the name and the description of
  the diagram it comes from.
-/

namespace Flowchart

/-- What a script defines.  Functions are the only kind there is. -/
inductive ScriptKind where
  | function
deriving DecidableEq, Repr

/-- The word that stands for this kind. -/
def ScriptKind.word : ScriptKind → String
  | .function => "Function"

/-- A compiled script. -/
structure Script where
  source : String
  name : String
  kind : ScriptKind := .function
  description : String
deriving DecidableEq, Repr

end Flowchart
