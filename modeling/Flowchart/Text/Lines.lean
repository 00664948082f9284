/-
  Flowchart.Text.Lines

  Cutting a text into lines, and lines into a text.
-/

namespace Flowchart.Text

/-- The line without the carriage return that ends it, both read backwards. -/
def dropReturn : List Char → List Char
  | '\r' :: rest => rest
  | line => line

/-- The lines of a text, where `line` is what has been read of the first one,
    backwards.  A line feed ends a line, together with a carriage return right
    before it; a text that ends with a line feed has no empty line after it. -/
def cutLines (line : List Char) : List Char → List (List Char)
  | [] => if line = [] then [] else [line.reverse]
  | '\n' :: rest => (dropReturn line).reverse :: cutLines [] rest
  | c :: rest => cutLines (c :: line) rest

/-- The lines of a text. -/
def lines (text : String) : List String :=
  (cutLines [] text.toList).map String.ofList

/-- The text made of these lines, each ended by a line feed. -/
def unlines (lines : List String) : String :=
  String.join (lines.map fun line => line ++ "\n")

end Flowchart.Text
