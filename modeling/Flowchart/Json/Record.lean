/-
  Flowchart.Json.Record

  Readers of records.  A record is written as an object, whose members stand in
  any order and may include some the record does not know, or as a list of its
  fields in order.  Fields that are not required keep the value of the blank
  record when they are left out.
-/

import Flowchart.Json.Skip
import Flowchart.Json.Value

namespace Flowchart.Json

/-- A field: its name, whether it has to be there, and how its value is read into
    the record. -/
structure Field (σ : Type) where
  name : String
  required : Bool
  reader : Reader (σ → σ)

/-- A sort of record: how it is spoken of, its fields in order, and the record in
    which no field has been read. -/
structure Record (σ : Type) where
  title : String
  fields : List (Field σ)
  blank : σ

variable {σ : Type}

/-! ## Objects -/

/-- Reads a key after its opening quote. -/
def readKey (text : List Char) : Except Fault (Option String × List Char) :=
  match readString [] text with
  | .error fault => .error fault
  | .ok (key, rest) => .ok (some key, rest)

/-- Looks for the next member of an object: its key, or nothing when the object is
    closed.  `first` tells that no member has been read yet. -/
def nextMember (first : Bool) (text : List Char) :
    Except Fault (Option String × List Char) :=
  match skipSpace text with
  | [] => .error .endInObject
  | c :: rest =>
      if c = '\x7d' then .ok (none, rest)
      else if first then
        if c = '"' then readKey rest else .error .keyNotString
      else if c = ',' then
        match skipSpace rest with
        | [] => .error .endInValue
        | c :: rest =>
            if c = '"' then readKey rest
            else if c = '\x7d' then .error .trailingComma
            else .error .keyNotString
      else .error .expectedCommaOrBrace

/-- Reads the value of a member with a given key into the record.  `seen` lists the
    fields that have been read; a key the record does not know is passed over. -/
def Record.readMember (record : Record σ) (seen : List String) (value : σ) (key : String)
    (text : List Char) : Except Fault ((List String × σ) × List Char) :=
  match record.fields.find? fun field => field.name = key with
  | none => do
      let rest ← readColon text
      let (_, rest) ← skipValue.run rest
      .ok ((seen, value), rest)
  | some field =>
      if key ∈ seen then .error (.duplicateField key)
      else do
        let rest ← readColon text
        let (set, rest) ← field.reader.run rest
        .ok ((key :: seen, set value), rest)

theorem readKey_below (text : List Char) : Below text.length (readKey text) := by
  unfold readKey
  split
  · exact .error _
  · rename_i h
    exact .ok (readString_below _ _ _ _ h)

theorem nextMember_below (first : Bool) (text : List Char) :
    Below text.length (nextMember first text) := by
  unfold nextMember
  split
  · exact .error _
  · rename_i c rest start
    have hrest := length_lt_of_skipSpace start
    split
    · exact .ok hrest
    split
    · split
      · exact (readKey_below _).mono (Nat.le_of_lt hrest)
      · exact .error _
    split
    · split
      · exact .error _
      · rename_i c' rest' start'
        have hrest' := length_lt_of_skipSpace start'
        split
        · exact (readKey_below _).mono (by omega)
        · split <;> exact .error _
    · exact .error _

theorem Record.readMember_below (record : Record σ) (seen : List String) (value : σ)
    (key : String) (text : List Char) :
    Below text.length (record.readMember seen value key text) := by
  unfold Record.readMember
  split
  · cases colon : readColon text with
    | error fault => exact .error _
    | ok rest =>
        have := length_lt_of_readColon colon
        exact ((skipValue.below rest).mono (by omega)).bind fun _ _ h => .ok h
  · rename_i field _
    split
    · exact .error _
    · cases colon : readColon text with
      | error fault => exact .error _
      | ok rest =>
          have := length_lt_of_readColon colon
          exact ((field.reader.below rest).mono (by omega)).bind fun _ _ h => .ok h

/-- Reads the members of an object up to and with its closing brace, and gives the
    names of the fields that were there beside the record. -/
def Record.readMembers (record : Record σ) (first : Bool) (seen : List String) (value : σ)
    (text : List Char) : Except Fault ((List String × σ) × List Char) :=
  match hkey : nextMember first text with
  | .error fault => .error fault
  | .ok (none, rest) => .ok ((seen, value), rest)
  | .ok (some key, rest) =>
      match hmember : record.readMember seen value key rest with
      | .error fault => .error fault
      | .ok ((seen', value'), rest') =>
          have := nextMember_below _ _ _ _ hkey
          have := record.readMember_below _ _ _ _ _ _ hmember
          record.readMembers false seen' value' rest'
termination_by text.length

theorem Record.readMembers_below (record : Record σ) (first : Bool) (seen : List String)
    (value : σ) (text : List Char) :
    Below text.length (record.readMembers first seen value text) := by
  fun_induction Record.readMembers record first seen value text with
  | case1 => exact .error _
  | case2 _ _ _ _ _ h => exact .ok (nextMember_below _ _ _ _ h)
  | case3 => exact .error _
  | case4 _ _ _ _ _ _ _ _ _ _ _ _ _ ih => exact ih.mono (by omega)

/-- The first field that has to be there and was not. -/
def Record.missing? (record : Record σ) (seen : List String) : Option (Field σ) :=
  record.fields.find? fun field => field.required ∧ field.name ∉ seen

/-- Reads a record written as an object, after the opening brace. -/
def Record.readObject (record : Record σ) (text : List Char) :
    Except Fault (σ × List Char) :=
  match record.readMembers true [] record.blank text with
  | .error fault => .error fault
  | .ok ((seen, value), rest) =>
      match record.missing? seen with
      | some field => .error (.missingField field.name)
      | none => .ok (value, rest)

theorem Record.readObject_below (record : Record σ) (text : List Char) :
    Below text.length (record.readObject text) := by
  unfold Record.readObject
  split
  · exact .error _
  · rename_i h
    split
    · exact .error _
    · exact .ok (record.readMembers_below _ _ _ _ _ _ h)

/-! ## Lists of fields -/

/-- Reads fields in order up to and with the closing bracket of the list.  `index`
    is the place of the first of them in the record. -/
def Record.readFields (record : Record σ) :
    List (Field σ) → Nat → Bool → σ → List Char → Except Fault (σ × List Char)
  | [], _, _, value, text =>
      match endList text with
      | .error fault => .error fault
      | .ok rest => .ok (value, rest)
  | field :: fields, index, first, value, text =>
      match nextItem first text with
      | .error fault => .error fault
      | .ok none =>
          if field.required then
            .error (.wrongLength index record.title record.fields.length)
          else record.readFields fields (index + 1) first value text
      | .ok (some text') =>
          match field.reader.run text' with
          | .error fault => .error fault
          | .ok (set, rest) => record.readFields fields (index + 1) false (set value) rest

theorem Record.readFields_below (record : Record σ) (fields : List (Field σ)) (index : Nat)
    (first : Bool) (value : σ) (text : List Char) :
    Below text.length (record.readFields fields index first value text) := by
  induction fields generalizing index first value text with
  | nil =>
      unfold Record.readFields
      split
      · exact .error _
      · rename_i h
        exact .ok (length_lt_of_endList h)
  | cons field fields ih =>
      unfold Record.readFields
      split
      · exact .error _
      · split
        · exact .error _
        · exact ih _ _ _ _
      · rename_i start
        have := length_le_of_nextItem start
        split
        · exact .error _
        · rename_i h
          have := field.reader.below _ _ _ h
          exact (ih _ _ _ _).mono (by omega)

/-! ## Either form -/

/-- Reads a record. -/
def Record.reader (record : Record σ) : Reader σ :=
  afterSpace
    (fun text =>
      match text with
      | [] => .error .endInValue
      | c :: rest =>
          if c = '[' then record.readFields record.fields 0 true record.blank rest
          else if c = '\x7b' then record.readObject rest
          else .error (mismatch ("struct " ++ record.title) (c :: rest)))
    (by
      intro text
      split
      · exact .error _
      · split
        · exact (record.readFields_below _ _ _ _ _).mono (Nat.le_succ _)
        · split
          · exact (record.readObject_below _).mono (Nat.le_succ _)
          · exact .error _)

/-- Reads a text that holds one value and nothing else. -/
def readAll {α : Type} (reader : Reader α) (text : List Char) : Except Fault α :=
  match reader.run text with
  | .error fault => .error fault
  | .ok (value, rest) =>
      match skipSpace rest with
      | [] => .ok value
      | _ :: _ => .error .trailingCharacters

end Flowchart.Json
