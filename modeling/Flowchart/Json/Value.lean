/-
  Flowchart.Json.Value

  Readers of single values: strings, small numbers, words from a fixed list,
  values that may be null, and lists.  A value of the wrong type is read to its
  end before it is named in the fault, so that its own faults come first; of a
  list or an object the opening bracket is enough.
-/

import Flowchart.Json.Number
import Flowchart.Json.Strings

namespace Flowchart.Json

/-! ## Values of the wrong type -/

/-- The fault of a word that was not wanted. -/
def wordFault (word text : List Char) (fault : Fault) : Fault :=
  match readWord word text with
  | .error broken => broken
  | .ok _ => fault

/-- The fault of a number that was not wanted. -/
def numberFault (negative : Bool) (text : List Char) (expected : String) : Fault :=
  match readNumber negative text with
  | .error broken => broken
  | .ok (found, _) => .wrongType found expected

/-- The fault of a text that starts, without blanks, with something else than was
    expected. -/
def mismatch (expected : String) : List Char → Fault
  | [] => .endInValue
  | c :: text =>
      if c = 'n' then wordFault "ull".toList text (.wrongType .null expected)
      else if c = 't' then wordFault "rue".toList text (.wrongType (.boolean true) expected)
      else if c = 'f' then wordFault "alse".toList text (.wrongType (.boolean false) expected)
      else if c = '-' then numberFault true text expected
      else if c.isDigit then numberFault false (c :: text) expected
      else if c = '"' then
        match readString [] text with
        | .error broken => broken
        | .ok (value, _) => .wrongType (.string value) expected
      else if c = '[' then .wrongType .sequence expected
      else if c = '\x7b' then .wrongType .map expected
      else .expectedValue

/-! ## Readers -/

/-- A reader that first passes over blanks. -/
def afterSpace {α : Type} (run : List Char → Except Fault (α × List Char))
    (below : ∀ text, Below text.length (run text)) : Reader α where
  run text := run (skipSpace text)
  below text := (below _).mono (length_skipSpace_le text)

/-- Reads a string. -/
def string : Reader String :=
  afterSpace
    (fun text =>
      match text with
      | '"' :: text => readString [] text
      | text => .error (mismatch "a string" text))
    (by
      intro text
      split
      · exact (readString_below _ _).mono (Nat.le_succ _)
      · exact .error _)

/-- A number as 32 bits, if it is one. -/
def word32 : Found → Except Fault UInt32
  | .integer value =>
      if 0 ≤ value ∧ value < UInt32.size then .ok (UInt32.ofNat value.toNat)
      else .error (.wrongValue (.integer value) "u32")
  | found => .error (.wrongType found "u32")

/-- Reads a number after its sign as 32 bits. -/
def readWord32 (negative : Bool) (text : List Char) : Except Fault (UInt32 × List Char) :=
  match readNumber negative text with
  | .error fault => .error fault
  | .ok (found, rest) =>
      match word32 found with
      | .error fault => .error fault
      | .ok value => .ok (value, rest)

theorem readWord32_below (negative : Bool) (text : List Char) :
    Below text.length (readWord32 negative text) := by
  unfold readWord32
  split
  · exact .error _
  · rename_i found rest h
    split
    · exact .error _
    · exact .ok (readNumber_below _ _ _ _ h)

/-- Reads a number of 32 bits. -/
def natural32 : Reader UInt32 :=
  afterSpace
    (fun text =>
      match text with
      | [] => .error .endInValue
      | c :: rest =>
          if c = '-' then readWord32 true rest
          else if c.isDigit then readWord32 false (c :: rest)
          else .error (mismatch "u32" (c :: rest)))
    (by
      intro text
      split
      · exact .error _
      · split
        · exact (readWord32_below _ _).mono (Nat.le_succ _)
        · split
          · exact readWord32_below _ _
          · exact .error _)

/-- Reads a value or `null`.  A value may not start with the letter `n`. -/
def nullable {α : Type} (reader : Reader α) : Reader (Option α) :=
  afterSpace
    (fun text =>
      match text with
      | 'n' :: rest =>
          match readWord "ull".toList rest with
          | .error fault => .error fault
          | .ok rest => .ok (none, rest)
      | text => (reader.map some).run text)
    (by
      intro text
      split
      · split
        · exact .error _
        · rename_i h
          exact .ok (Nat.lt_succ_of_le (length_le_of_readWord h))
      · exact (reader.map some).below _)

/-! ## Words from a fixed list -/

/-- A list of words that stand for values, and how the list is spoken of. -/
structure Words (α : Type) where
  table : List (String × α)
  expected : String

/-- The value a word stands for. -/
def Words.value {α : Type} (words : Words α) (word : String) : Except Fault α :=
  match words.table.find? fun row => row.1 = word with
  | some row => .ok row.2
  | none => .error (.unknownWord word words.expected)

/-- Reads a word of the list after its opening quote. -/
def Words.read {α : Type} (words : Words α) (text : List Char) :
    Except Fault (α × List Char) :=
  match readString [] text with
  | .error fault => .error fault
  | .ok (word, rest) =>
      match words.value word with
      | .error fault => .error fault
      | .ok value => .ok (value, rest)

theorem Words.read_below {α : Type} (words : Words α) (text : List Char) :
    Below text.length (words.read text) := by
  unfold Words.read
  split
  · exact .error _
  · rename_i word rest h
    split
    · exact .error _
    · exact .ok (readString_below _ _ _ _ h)

/-- Reads `null`, where nothing else may stand. -/
def readNull (text : List Char) : Except Fault (List Char) :=
  match skipSpace text with
  | 'n' :: rest => readWord "ull".toList rest
  | text => .error (mismatch "unit" text)

theorem length_le_of_readNull {text rest : List Char} (h : readNull text = .ok rest) :
    rest.length ≤ text.length := by
  unfold readNull at h
  have hspace := length_skipSpace_le text
  split at h
  · rename_i r eq
    have := length_le_of_readWord h
    simp only [eq, List.length_cons] at hspace
    omega
  · cases h

/-- Reads the brace that closes an object of one member. -/
def readBrace (text : List Char) : Except Fault (List Char) :=
  match skipSpace text with
  | [] => .error .endInObject
  | c :: rest => if c = '\x7d' then .ok rest else .error .expectedValue

theorem length_le_of_readBrace {text rest : List Char} (h : readBrace text = .ok rest) :
    rest.length ≤ text.length := by
  unfold readBrace at h
  have hspace := length_skipSpace_le text
  split at h
  · cases h
  · rename_i c r eq
    split at h
    · cases h
      simp only [eq, List.length_cons] at hspace
      omega
    · cases h

/-- Reads what follows the word in an object of one member: a colon, `null` and the
    closing brace. -/
def readWordEnd (text : List Char) : Except Fault (List Char) := do
  let rest ← readColon text
  let rest ← readNull rest
  readBrace rest

theorem length_le_of_readWordEnd {text rest : List Char} (h : readWordEnd text = .ok rest) :
    rest.length ≤ text.length := by
  unfold readWordEnd at h
  cases colon : readColon text with
  | error fault => simp [colon, bind, Except.bind] at h
  | ok first =>
      simp only [colon, bind, Except.bind] at h
      cases null : readNull first with
      | error fault => simp [null] at h
      | ok second =>
          simp only [null] at h
          have := length_lt_of_readColon colon
          have := length_le_of_readNull null
          have := length_le_of_readBrace h
          omega

/-- Reads a word of the list as the key of an object of one member, after the
    opening brace. -/
def Words.readKey {α : Type} (words : Words α) (text : List Char) :
    Except Fault (α × List Char) :=
  match skipSpace text with
  | [] => .error .endInObject
  | c :: rest =>
      if c = '"' then
        match words.read rest with
        | .error fault => .error fault
        | .ok (value, rest) =>
            match readWordEnd rest with
            | .error fault => .error fault
            | .ok rest => .ok (value, rest)
      else if c = '\x7d' then .error .expectedValue
      else .error .keyNotString

theorem Words.readKey_below {α : Type} (words : Words α) (text : List Char) :
    Below text.length (words.readKey text) := by
  unfold Words.readKey
  have hspace := length_skipSpace_le text
  split
  · exact .error _
  · rename_i c r eq
    simp only [eq, List.length_cons] at hspace
    split
    · split
      · exact .error _
      · rename_i h
        have := words.read_below _ _ _ h
        split
        · exact .error _
        · rename_i hend
          have := length_le_of_readWordEnd hend
          exact .ok (by omega)
    · split <;> exact .error _

/-- Reads a word of the list: as a string, or as the key of an object whose only
    member is `null`. -/
def Words.reader {α : Type} (words : Words α) : Reader α :=
  afterSpace
    (fun text =>
      match text with
      | [] => .error .endInValue
      | c :: rest =>
          if c = '"' then words.read rest
          else if c = '\x7b' then words.readKey rest
          else .error .expectedValue)
    (by
      intro text
      split
      · exact .error _
      · split
        · exact (words.read_below _).mono (Nat.le_succ _)
        · split
          · exact (words.readKey_below _).mono (Nat.le_succ _)
          · exact .error _)

/-! ## Lists -/

/-- Looks for the next item of a list: the text at which it starts, or nothing where
    the list is closed.  `first` tells that no item has been read yet. -/
def nextItem (first : Bool) (text : List Char) : Except Fault (Option (List Char)) :=
  match skipSpace text with
  | [] => .error .endInList
  | c :: rest =>
      if c = ']' then .ok none
      else if first then .ok (some (c :: rest))
      else if c = ',' then
        match skipSpace rest with
        | [] => .error .endInValue
        | c :: rest => if c = ']' then .error .trailingComma else .ok (some (c :: rest))
      else .error .expectedCommaOrBracket

theorem length_le_of_nextItem {first : Bool} {text rest : List Char}
    (h : nextItem first text = .ok (some rest)) : rest.length ≤ text.length := by
  unfold nextItem at h
  have hspace := length_skipSpace_le text
  split at h
  · cases h
  · rename_i c r eq
    rw [eq] at hspace
    split at h
    · cases h
    · split at h
      · cases h
        exact hspace
      · split at h
        · have hspace' := length_skipSpace_le r
          split at h
          · cases h
          · rename_i c' r' eq'
            rw [eq'] at hspace'
            split at h
            · cases h
            · cases h
              simp only [List.length_cons] at hspace hspace' ⊢
              omega
        · cases h

/-- Closes a list; nothing but its bracket may be left. -/
def endList (text : List Char) : Except Fault (List Char) :=
  match skipSpace text with
  | [] => .error .endInList
  | c :: rest =>
      if c = ']' then .ok rest
      else if c = ',' then
        match skipSpace rest with
        | ']' :: _ => .error .trailingComma
        | _ => .error .trailingCharacters
      else .error .trailingCharacters

theorem length_lt_of_endList {text rest : List Char} (h : endList text = .ok rest) :
    rest.length < text.length := by
  unfold endList at h
  have hspace := length_skipSpace_le text
  split at h
  · cases h
  · rename_i c r eq
    simp only [eq, List.length_cons] at hspace
    split at h
    · cases h
      omega
    · split at h
      · split at h <;> cases h
      · cases h

/-- Reads the items of a list up to and with its closing bracket; `read` holds those
    that have been read, backwards. -/
def readItems {α : Type} (item : Reader α) (first : Bool) (read : List α)
    (text : List Char) : Except Fault (List α × List Char) :=
  match start : nextItem first text with
  | .error fault => .error fault
  | .ok none =>
      match endList text with
      | .error fault => .error fault
      | .ok rest => .ok (read.reverse, rest)
  | .ok (some text') =>
      match h : item.run text' with
      | .error fault => .error fault
      | .ok (value, rest) =>
          have := length_le_of_nextItem start
          have := item.below _ _ _ h
          readItems item false (value :: read) rest
termination_by text.length

theorem readItems_below {α : Type} (item : Reader α) (first : Bool) (read : List α)
    (text : List Char) : Below text.length (readItems item first read text) := by
  fun_induction readItems item first read text with
  | case1 => exact .error _
  | case2 => exact .error _
  | case3 _ _ _ _ _ h => exact .ok (length_lt_of_endList h)
  | case4 => exact .error _
  | case5 _ _ _ _ _ _ _ _ _ _ ih => exact ih.mono (by omega)

/-- Reads a list. -/
def list {α : Type} (item : Reader α) : Reader (List α) :=
  afterSpace
    (fun text =>
      match text with
      | '[' :: text => readItems item true [] text
      | text => .error (mismatch "a sequence" text))
    (by
      intro text
      split
      · exact (readItems_below _ _ _ _).mono (Nat.le_succ _)
      · exact .error _)

end Flowchart.Json
