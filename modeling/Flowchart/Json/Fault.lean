/-
  Flowchart.Json.Fault

  What can be wrong with a JSON text that should hold a value of a given type,
  and how it is said.
-/

import Flowchart.Decimal.Layout
import Flowchart.Text.Quoted

namespace Flowchart.Json

/-- What a text holds where a value of another type was wanted. -/
inductive Found where
  | null
  | boolean (value : Bool)
  | integer (value : Int)
  /-- A number that is not kept as an integer, by the bits of the double. -/
  | float (bits : UInt64)
  | string (value : String)
  | sequence
  | map
deriving DecidableEq, Repr

/-- Doubles from `0.00001` up to sixteen digits before the point are written out. -/
def numberLayout : Decimal.Layout :=
  { lowest := -5, highest := 15 }

/-- How a message speaks of what was found. -/
def Found.text : Found → String
  | .null => "null"
  | .boolean true => "boolean `true`"
  | .boolean false => "boolean `false`"
  | .integer value => "integer `" ++ toString value ++ "`"
  | .float bits => "floating point `" ++ numberLayout.text bits ++ "`"
  | .string value => "string " ++ Text.quoted value
  | .sequence => "sequence"
  | .map => "map"

/-- Why a text cannot be read. -/
inductive Fault where
  /-- The text ends where a value has to start, or inside a number or a word. -/
  | endInValue
  | endInList
  | endInObject
  | endInString
  | expectedColon
  | expectedCommaOrBracket
  | expectedCommaOrBrace
  /-- A word that starts like `null`, `true` or `false` goes on differently. -/
  | expectedWord
  | expectedValue
  | invalidEscape
  | invalidNumber
  | numberOutOfRange
  | controlCharacter
  | keyNotString
  /-- Half of a surrogate pair stands where its partner should. -/
  | loneSurrogate
  /-- The first half of a surrogate pair is followed by no escape. -/
  | endOfSurrogates
  | trailingComma
  | trailingCharacters
  | wrongType (found : Found) (expected : String)
  | wrongValue (found : Found) (expected : String)
  | unknownWord (word : String) (expected : String)
  | duplicateField (field : String)
  | missingField (field : String)
  /-- A record written as a list ends before its field number `count`. -/
  | wrongLength (count : Nat) (record : String) (size : Nat)
deriving DecidableEq, Repr

/-- The sentence that tells the user what is wrong. -/
def Fault.message : Fault → String
  | .endInValue => "EOF while parsing a value"
  | .endInList => "EOF while parsing a list"
  | .endInObject => "EOF while parsing an object"
  | .endInString => "EOF while parsing a string"
  | .expectedColon => "expected `:`"
  | .expectedCommaOrBracket => "expected `,` or `]`"
  | .expectedCommaOrBrace => "expected `,` or `\x7d`"
  | .expectedWord => "expected ident"
  | .expectedValue => "expected value"
  | .invalidEscape => "invalid escape"
  | .invalidNumber => "invalid number"
  | .numberOutOfRange => "number out of range"
  | .controlCharacter =>
      "control character (\\u0000-\\u001F) found while parsing a string"
  | .keyNotString => "key must be a string"
  | .loneSurrogate => "lone leading surrogate in hex escape"
  | .endOfSurrogates => "unexpected end of hex escape"
  | .trailingComma => "trailing comma"
  | .trailingCharacters => "trailing characters"
  | .wrongType found expected => "invalid type: " ++ found.text ++ ", expected " ++ expected
  | .wrongValue found expected => "invalid value: " ++ found.text ++ ", expected " ++ expected
  | .unknownWord word expected => "unknown variant `" ++ word ++ "`, expected " ++ expected
  | .duplicateField field => "duplicate field `" ++ field ++ "`"
  | .missingField field => "missing field `" ++ field ++ "`"
  | .wrongLength count record size =>
      "invalid length " ++ Nat.repr count ++ ", expected struct " ++ record ++ " with "
        ++ Nat.repr size ++ " elements"

end Flowchart.Json
