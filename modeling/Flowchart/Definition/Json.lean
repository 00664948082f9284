/-
  Flowchart.Definition.Json

  Definitions as JSON text, read and written.
-/

import Flowchart.Definition.Build
import Flowchart.Json.Record
import Flowchart.Json.Writer

namespace Flowchart

/-! ## Words -/

/-- The words for kinds of elements. -/
def Kind.words : Json.Words Kind where
  table := [Kind.entry, Kind.action, Kind.branch].map fun kind => (kind.word, kind)
  expected := "one of `entry`, `action`, `branch`"

/-- The words for labels of arrows. -/
def Label.words : Json.Words Label where
  table := [Label.yes, Label.no].map fun label => (label.word, label)
  expected := "`yes` or `no`"

/-! ## Reading -/

/-- An element as a record. -/
def ElementSpec.record : Json.Record ElementSpec where
  title := "NodeDefinition"
  fields :=
    [{ name := "key", required := true
       reader := Json.string.map fun key spec => { spec with key } },
     { name := "kind", required := true
       reader := Kind.words.reader.map fun kind spec => { spec with kind } },
     { name := "script", required := false
       reader := (Json.nullable Json.string).map fun script spec => { spec with script } }]
  blank := {}

/-- An arrow as a record. -/
def ArrowSpec.record : Json.Record ArrowSpec where
  title := "EdgeDefinition"
  fields :=
    [{ name := "source", required := true
       reader := Json.string.map fun source spec => { spec with source } },
     { name := "target", required := true
       reader := Json.string.map fun target spec => { spec with target } },
     { name := "condition", required := false
       reader := (Json.nullable Label.words.reader).map fun label spec => { spec with label } }]
  blank := {}

/-- A definition as a record. -/
def Definition.record : Json.Record Definition where
  title := "DiagramDefinition"
  fields :=
    [{ name := "name", required := true
       reader := Json.string.map fun name d => { d with name } },
     { name := "description", required := false
       reader := Json.string.map fun description d => { d with description } },
     { name := "original_name", required := false
       reader := (Json.nullable Json.string).map fun formerName d => { d with formerName } },
     { name := "version", required := false
       reader := Json.natural32.map fun version d => { d with version } },
     { name := "nodes", required := true
       reader := (Json.list ElementSpec.record.reader).map fun elements d =>
         { d with elements } },
     { name := "edges", required := false
       reader := (Json.list ArrowSpec.record.reader).map fun arrows d => { d with arrows } }]
  blank := {}

/-- Reads a definition from its text. -/
def Definition.ofJson (text : String) : Except ImportError Definition :=
  match Json.readAll Definition.record.reader text.toList with
  | .error fault => .error (.unreadable fault)
  | .ok d => .ok d

/-! ## Writing -/

/-- Writes an element. -/
def ElementSpec.write (spec : ElementSpec) : List Char :=
  Json.writeObject
    [("key", Json.writeString spec.key),
     ("kind", Json.writeString spec.kind.word),
     ("script", Json.writeNullable Json.writeString spec.script)]

/-- Writes an arrow. -/
def ArrowSpec.write (spec : ArrowSpec) : List Char :=
  Json.writeObject
    [("source", Json.writeString spec.source),
     ("target", Json.writeString spec.target),
     ("condition", Json.writeNullable (fun label => Json.writeString label.word) spec.label)]

/-- Writes a definition. -/
def Definition.write (d : Definition) : List Char :=
  Json.writeObject
    [("name", Json.writeString d.name),
     ("description", Json.writeString d.description),
     ("original_name", Json.writeNullable Json.writeString d.formerName),
     ("version", (Nat.repr d.version.toNat).toList),
     ("nodes", Json.writeList (d.elements.map ElementSpec.write)),
     ("edges", Json.writeList (d.arrows.map ArrowSpec.write))]

/-- The text of a definition, every field written out. -/
def Definition.toJson (d : Definition) : String :=
  String.ofList d.write

end Flowchart
