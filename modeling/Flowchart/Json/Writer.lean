/-
  Flowchart.Json.Writer

  Writing objects and lists, on one line or with one member to a line.
-/

import Flowchart.Json.Strings

namespace Flowchart.Json

/-- The parts one after the other with a separator between them. -/
def joinWith (separator : List Char) : List (List Char) → List Char
  | [] => []
  | [part] => part
  | part :: parts => part ++ separator ++ joinWith separator parts

/-- A list on one line. -/
def writeList (items : List (List Char)) : List Char :=
  ['['] ++ joinWith [','] items ++ [']']

/-- An object on one line, from its keys and written values. -/
def writeObject (members : List (String × List Char)) : List Char :=
  ['\x7b'] ++ joinWith [','] (members.map fun m => writeString m.1 ++ [':'] ++ m.2) ++ ['\x7d']

/-- An object with one member to a line, from its keys and written values. -/
def writeObjectLines (members : List (String × List Char)) : List Char :=
  ['\x7b', '\n']
    ++ joinWith [',', '\n']
      (members.map fun m => [' ', ' '] ++ writeString m.1 ++ [':', ' '] ++ m.2)
    ++ ['\n', '\x7d']

/-- A value that may be missing, written as `null` then. -/
def writeNullable {α : Type} (write : α → List Char) : Option α → List Char
  | none => "null".toList
  | some value => write value

end Flowchart.Json
