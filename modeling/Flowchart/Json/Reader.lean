/-
  Flowchart.Json.Reader

  Readers of JSON text.  A reader looks at the start of a text and gives a value
  with the text that is left, or a fault; it always uses up at least one
  character, which is what lets readers of lists and objects repeat it.
-/

import Flowchart.Json.Fault

namespace Flowchart.Json

/-! ## Using up text -/

/-- If there is a value, fewer than `n` characters are left after it. -/
def Below {α : Type} (n : Nat) (outcome : Except Fault (α × List Char)) : Prop :=
  ∀ value rest, outcome = .ok (value, rest) → rest.length < n

namespace Below

variable {α β : Type} {n k : Nat}

theorem error (fault : Fault) : Below n (.error fault : Except Fault (α × List Char)) := by
  intro value rest h
  cases h

theorem ok {value : α} {rest : List Char} (h : rest.length < n) :
    Below n (.ok (value, rest)) := by
  intro value' rest' h'
  cases h'
  exact h

theorem mono {outcome : Except Fault (α × List Char)} (h : Below n outcome) (hn : n ≤ k) :
    Below k outcome :=
  fun value rest eq => Nat.lt_of_lt_of_le (h value rest eq) hn

/-- What is read after a value leaves no more than was left before. -/
theorem bind {outcome : Except Fault (α × List Char)}
    {next : α × List Char → Except Fault (β × List Char)} (h : Below n outcome)
    (hnext : ∀ value rest, rest.length < n → Below n (next (value, rest))) :
    Below n (outcome >>= next) := by
  intro value rest eq
  cases outcome with
  | error fault => cases eq
  | ok first => exact hnext first.1 first.2 (h _ _ rfl) value rest eq

end Below

/-- A reader of values. -/
structure Reader (α : Type) where
  /-- What the reader makes of a text. -/
  run : List Char → Except Fault (α × List Char)
  /-- Something is used up whenever a value is read. -/
  below : ∀ text, Below text.length (run text)

/-- Reads the same text and changes the value. -/
def Reader.map {α β : Type} (f : α → β) (reader : Reader α) : Reader β where
  run text := do
    let (value, rest) ← reader.run text
    .ok (f value, rest)
  below text := (reader.below text).bind fun _ _ h => .ok h

/-! ## Blanks, words and single characters -/

/-- The four characters that may stand between the parts of a JSON text. -/
def isSpace (c : Char) : Bool :=
  c = ' ' ∨ c = '\t' ∨ c = '\n' ∨ c = '\r'

/-- The text without the blanks it starts with. -/
def skipSpace (text : List Char) : List Char :=
  text.dropWhile isSpace

theorem length_skipSpace_le (text : List Char) : (skipSpace text).length ≤ text.length :=
  (List.dropWhile_suffix isSpace).length_le

/-- Behind the first character that is no blank, less is left. -/
theorem length_lt_of_skipSpace {text rest : List Char} {c : Char}
    (h : skipSpace text = c :: rest) : rest.length < text.length := by
  have := length_skipSpace_le text
  rw [h] at this
  exact this

/-- Reads the rest of a word letter by letter. -/
def readWord : List Char → List Char → Except Fault (List Char)
  | [], text => .ok text
  | _ :: _, [] => .error .endInValue
  | letter :: word, c :: text =>
      if c = letter then readWord word text else .error .expectedWord

theorem length_le_of_readWord {word text rest : List Char} (h : readWord word text = .ok rest) :
    rest.length ≤ text.length := by
  induction word generalizing text with
  | nil => simp_all [readWord]
  | cons letter word ih =>
      cases text with
      | nil => simp [readWord] at h
      | cons c text =>
          simp only [readWord] at h
          split at h
          · exact Nat.le_trans (ih h) (Nat.le_succ _)
          · cases h

/-- Reads the colon between the key and the value of a member. -/
def readColon (text : List Char) : Except Fault (List Char) :=
  match skipSpace text with
  | [] => .error .endInObject
  | c :: rest => if c = ':' then .ok rest else .error .expectedColon

theorem length_lt_of_readColon {text rest : List Char} (h : readColon text = .ok rest) :
    rest.length < text.length := by
  unfold readColon at h
  split at h
  · cases h
  · rename_i c r start
    split at h
    · cases h
      exact length_lt_of_skipSpace start
    · cases h

end Flowchart.Json
