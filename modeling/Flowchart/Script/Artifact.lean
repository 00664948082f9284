/-
  Flowchart.Script.Artifact

  Compiled scripts as JSON text and as bytes.  In bytes a script is its source,
  its name, the number of its kind and its description, one after the other; a
  text is its length and its bytes in UTF-8.  Numbers below 251 take one byte;
  larger ones a tag byte and two, four or eight bytes, the lowest first.
-/

import Flowchart.Json.Writer
import Flowchart.Script.Basic
import Flowchart.Text.Utf8

namespace Flowchart

/-! ## JSON -/

/-- The text of a script with all that belongs to it. -/
def Script.toJson (s : Script) : String :=
  String.ofList (Json.writeObjectLines
    [("source_text", Json.writeString s.source),
     ("name", Json.writeString s.name),
     ("kind", Json.writeString s.kind.word),
     ("description", Json.writeString s.description)])

/-! ## Writing bytes -/

namespace Artifact

/-- The lowest `count` bytes of a number, the lowest first. -/
def littleEndian : Nat → Nat → List UInt8
  | 0, _ => []
  | count + 1, n => UInt8.ofNat (n % 256) :: littleEndian count (n / 256)

/-- The number with these bytes, the lowest first. -/
def ofLittleEndian : List UInt8 → Nat
  | [] => 0
  | b :: bytes => b.toNat + 256 * ofLittleEndian bytes

/-- A number below `2 ^ 64` in the fewest bytes. -/
def writeNumber (n : Nat) : List UInt8 :=
  if n < 251 then [UInt8.ofNat n]
  else if n < UInt16.size then 251 :: littleEndian 2 n
  else if n < UInt32.size then 252 :: littleEndian 4 n
  else 253 :: littleEndian 8 n

/-- A text: its length and its bytes. -/
def writeText (text : String) : List UInt8 :=
  let bytes := Text.utf8Bytes text
  writeNumber bytes.length ++ bytes

/-- The number of a kind of script. -/
def kindNumber : ScriptKind → Nat
  | .function => 0

end Artifact

/-- A script as bytes. -/
def Script.toBytes (s : Script) : List UInt8 :=
  Artifact.writeText s.source
    ++ Artifact.writeText s.name
    ++ Artifact.writeNumber (Artifact.kindNumber s.kind)
    ++ Artifact.writeText s.description

/-! ## Reading bytes -/

namespace Artifact

/-- The forms of numbers that a fault speaks of. -/
inductive NumberForm where
  | bits32
  | bits64
  | bits128
  | reserved
deriving DecidableEq, Repr

/-- The word for a form of numbers. -/
def NumberForm.word : NumberForm → String
  | .bits32 => "U32"
  | .bits64 => "U64"
  | .bits128 => "U128"
  | .reserved => "Reserved"

/-- Why bytes are no script. -/
inductive Fault where
  /-- So many bytes are missing. -/
  | endOfBytes (additional : Nat)
  /-- The tag of a number belongs to another form. -/
  | wrongForm (expected found : NumberForm)
  /-- The bytes of a text are not UTF-8. -/
  | notText (fault : Text.Utf8Fault)
  /-- There is no kind of script with this number. -/
  | unknownKind (number : Nat)
deriving DecidableEq, Repr

/-- An optional number, as a fault spells it. -/
def optionText : Option Nat → String
  | none => "None"
  | some n => "Some(" ++ Nat.repr n ++ ")"

/-- What a fault is called. -/
def Fault.message : Fault → String
  | .endOfBytes additional => "UnexpectedEnd \x7b additional: " ++ Nat.repr additional ++ " \x7d"
  | .wrongForm expected found =>
      "InvalidIntegerType \x7b expected: " ++ expected.word ++ ", found: " ++ found.word ++ " \x7d"
  | .notText fault =>
      "Utf8 \x7b inner: Utf8Error \x7b valid_up_to: " ++ Nat.repr fault.validUpTo
        ++ ", error_len: " ++ optionText fault.badLength ++ " \x7d \x7d"
  | .unknownKind number =>
      "OtherString(\"invalid value: integer `" ++ Nat.repr number
        ++ "`, expected variant index 0 <= i < 1\")"

/-- How reading ends without a value. -/
inductive Failure where
  /-- A fault is found and told. -/
  | fault (fault : Fault)
  /-- The length of a text is beyond what any memory can hold.  Nothing is told: the
      program stops. -/
  | breakdown
deriving DecidableEq, Repr

/-- Reads a number of bytes. -/
def readBytes (count : Nat) (bytes : List UInt8) :
    Except Fault (List UInt8 × List UInt8) :=
  if bytes.length < count then .error (.endOfBytes (count - bytes.length))
  else .ok (bytes.take count, bytes.drop count)

/-- Reads a number that takes up a fixed number of bytes. -/
def readFixed (count : Nat) (bytes : List UInt8) : Except Fault (Nat × List UInt8) :=
  match readBytes count bytes with
  | .error fault => .error fault
  | .ok (digits, rest) => .ok (ofLittleEndian digits, rest)

/-- Reads a number after its tag, in forms up to `widest`. -/
def readTagged (widest expected : NumberForm) (tag : UInt8) (bytes : List UInt8) :
    Except Fault (Nat × List UInt8) :=
  if tag.toNat < 251 then .ok (tag.toNat, bytes)
  else if tag.toNat = 251 then readFixed 2 bytes
  else if tag.toNat = 252 then readFixed 4 bytes
  else if tag.toNat = 253 then
    if widest = .bits64 then readFixed 8 bytes else .error (.wrongForm expected .bits64)
  else if tag.toNat = 254 then .error (.wrongForm expected .bits128)
  else .error (.wrongForm expected .reserved)

/-- Reads the length of a text.  A wrong tag is measured against the short form as
    long as the widest number would still fit. -/
def readLength (bytes : List UInt8) : Except Fault (Nat × List UInt8) :=
  match bytes with
  | [] => .error (.endOfBytes 1)
  | tag :: rest =>
      readTagged .bits64 (if 9 ≤ bytes.length then .bits32 else .bits64) tag rest

/-- Reads the number of a kind of script. -/
def readKindNumber (bytes : List UInt8) : Except Fault (Nat × List UInt8) :=
  match bytes with
  | [] => .error (.endOfBytes 1)
  | tag :: rest => readTagged .bits32 .bits32 tag rest

/-- Reads a text of a given length. -/
def readContent (length : Nat) (bytes : List UInt8) : Except Fault (String × List UInt8) :=
  match readBytes length bytes with
  | .error fault => .error fault
  | .ok (content, rest) =>
      match Text.ofUtf8 content with
      | .error fault => .error (.notText fault)
      | .ok text => .ok (text, rest)

/-- Reads a text.  Room for it is made before its bytes are looked at. -/
def readText (bytes : List UInt8) : Except Failure (String × List UInt8) :=
  match readLength bytes with
  | .error fault => .error (.fault fault)
  | .ok (length, rest) =>
      if UInt64.size / 2 ≤ length then .error .breakdown
      else (readContent length rest).mapError .fault

/-- Reads a kind of script. -/
def readKind (bytes : List UInt8) : Except Fault (ScriptKind × List UInt8) :=
  match readKindNumber bytes with
  | .error fault => .error fault
  | .ok (number, rest) =>
      if number = 0 then .ok (.function, rest) else .error (.unknownKind number)

end Artifact

/-- The script at the start of some bytes; what follows it is not looked at. -/
def Script.ofBytes (bytes : List UInt8) : Except Artifact.Failure Script := do
  let (source, rest) ← Artifact.readText bytes
  let (name, rest) ← Artifact.readText rest
  let (kind, rest) ← (Artifact.readKind rest).mapError .fault
  let (description, _) ← Artifact.readText rest
  return { source, name, kind, description }

end Flowchart
