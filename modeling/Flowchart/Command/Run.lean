/-
  Flowchart.Command.Run

  What the command does: it reads a definition, inspects the diagram, compiles
  it, prints the script and keeps it in a file if asked.  A run on a tree of
  files gives all that can be seen of it.
-/

import Flowchart.Command.Arguments
import Flowchart.Definition.Json
import Flowchart.Script.Storage

namespace Flowchart.Command

/-! ## Texts -/

/-- The line that answers a question for the version. -/
def versionLine : String := "flochart 0.1.0"

/-- How the command is used. -/
def usageLine : String := "Usage: flochart-cli [OPTIONS] <DIAGRAM_PATH>"

/-- The lines that tell of defects. -/
def reportLines (defects : List Defect) : List String :=
  if defects = [] then []
  else
    ("Validator found " ++ Nat.repr defects.length ++ " problem(s):")
      :: defects.map fun defect => "  - [" ++ defect.code ++ "] " ++ defect.message

/-- The lines that tell why the command stops. -/
def errorLines (message : String) : List String :=
  ["", "Error: " ++ message]

/-- The line that tells where a script was kept. -/
def savedLine (path : String) : String :=
  "Saved compiled script to '" ++ path ++ "'"

/-- The line that tells what was compiled. -/
def compiledLine (name : String) (elements : Nat) : String :=
  "Compiled '" ++ name ++ "' (" ++ Nat.repr elements ++ " elements)"

/-! ## From a file to a script -/

namespace Request

/-- The text of the definition, from the bytes of its file. -/
def textOf (content : Except FileFault (List UInt8)) : Except FileFault String :=
  match content with
  | .error fault => .error fault
  | .ok bytes =>
      match Text.ofUtf8 bytes with
      | .error _ => .error .notText
      | .ok text => .ok text

/-- The diagram of a definition, under the rules for arrows or without them. -/
def diagramOf (request : Request) (text : String) : Except ImportError Diagram :=
  match Definition.ofJson text with
  | .error error => .error error
  | .ok definition => definition.buildWith !request.unchecked

/-- The script of a diagram, or why there is none.  A diagram with defects is only
    compiled when that is insisted on. -/
def scriptOf (request : Request) (diagram : Diagram) : Except String Script :=
  if diagram.graph.report ≠ [] ∧ !request.force then
    .error "Diagram is not valid; pass --force to compile anyway"
  else
    match diagram.compile request.options with
    | .error error => .error ("Compilation failed: " ++ error.message)
    | .ok script => .ok script

/-- The diagram in a file, from what reading the file gave, or why there is none. -/
def load (request : Request) (content : Except FileFault (List UInt8)) :
    Except String Diagram :=
  match textOf content with
  | .error fault =>
      .error ("Failed to read diagram file '" ++ request.path ++ "': " ++ fault.message)
  | .ok text =>
      match request.diagramOf text with
      | .error error => .error ("Failed to load diagram: " ++ error.message)
      | .ok diagram => .ok diagram

/-- What is printed of a script. -/
def outputOf (request : Request) (script : Script) : String :=
  match request.format with
  | .source => script.source
  | .json => script.toJson ++ "\n"

end Request

/-! ## Whole runs -/

/-- What can be seen of a run: its exit code, what it printed, the lines it wrote
    beside that, and the files it left. -/
structure Outcome where
  exitCode : Nat
  output : String := ""
  notes : List String := []
  files : FileTree

/-- Runs a request on a tree of files. -/
def Request.run (request : Request) (files : FileTree) : Outcome :=
  match request.load (files.read request.path) with
  | .error message => { exitCode := 1, notes := errorLines message, files }
  | .ok diagram =>
      let found := reportLines diagram.graph.report
      match request.scriptOf diagram with
      | .error message => { exitCode := 1, notes := found ++ errorLines message, files }
      | .ok script =>
          let output := request.outputOf script
          let done := compiledLine script.name diagram.graph.elements.length
          match request.artifact with
          | none => { exitCode := 0, output, notes := found ++ [done], files }
          | some path =>
              match script.save files path with
              | .error error =>
                  { exitCode := 1, output, notes := found ++ errorLines error.message, files }
              | .ok files =>
                  { exitCode := 0, output, notes := found ++ [savedLine path, done], files }

/-- Runs the command on a tree of files. -/
def runOn (arguments : List String) (files : FileTree) : Outcome :=
  match Invocation.ofArguments arguments with
  | .run request => request.run files
  | .version => { exitCode := 0, output := versionLine ++ "\n", files }
  | .help => { exitCode := 0, output := usageLine ++ "\n", files }
  | .misuse => { exitCode := 2, notes := [usageLine], files }

end Flowchart.Command
