/-
  Flowchart.Json.Strings

  Strings in a JSON text: reading them, passing over them, and writing them.
  A string that is passed over may hold unpaired surrogates, since nobody asks
  for its characters.
-/

import Flowchart.Json.Reader

namespace Flowchart.Json

/-! ## Escapes -/

/-- The value of a hexadecimal digit. -/
def hexDigit? (c : Char) : Option Nat :=
  if '0' ≤ c ∧ c ≤ '9' then some (c.toNat - 48)
  else if 'a' ≤ c ∧ c ≤ 'f' then some (c.toNat - 87)
  else if 'A' ≤ c ∧ c ≤ 'F' then some (c.toNat - 55)
  else none

/-- The number that four hexadecimal digits spell. -/
def hexValue? (a b c d : Char) : Option Nat := do
  let a ← hexDigit? a
  let b ← hexDigit? b
  let c ← hexDigit? c
  let d ← hexDigit? d
  return ((a * 16 + b) * 16 + c) * 16 + d

/-- How many bytes the text takes up in UTF-8. -/
def byteLength (text : List Char) : Nat :=
  text.foldr (fun c length => c.utf8Size + length) 0

/-- Reads the four digits of a `\u` escape.  The text has to go on for four bytes. -/
def readHex : List Char → Except Fault (Nat × List Char)
  | a :: b :: c :: d :: rest =>
      match hexValue? a b c d with
      | some value => .ok (value, rest)
      | none => .error .invalidEscape
  | text => .error (if 4 ≤ byteLength text then .invalidEscape else .endInString)

/-- The character that a pair of surrogates stands for. -/
def joinSurrogates (high low : Nat) : Char :=
  Char.ofNat ((high - 0xD800) * 0x400 + (low - 0xDC00) + 0x10000)

/-- Reads the second half of a surrogate pair, written as an escape of its own. -/
def readLowSurrogate (high : Nat) : List Char → Except Fault (Char × List Char)
  | [] => .error .endInString
  | '\\' :: [] => .error .endInString
  | '\\' :: 'u' :: text => do
      let (low, rest) ← readHex text
      if 0xDC00 ≤ low ∧ low ≤ 0xDFFF then .ok (joinSurrogates high low, rest)
      else .error .loneSurrogate
  | _ => .error .endOfSurrogates

/-- Reads what follows `\u`: one character, or a pair of surrogates. -/
def readUnicode (text : List Char) : Except Fault (Char × List Char) := do
  let (value, rest) ← readHex text
  if 0xDC00 ≤ value ∧ value ≤ 0xDFFF then .error .loneSurrogate
  else if 0xD800 ≤ value ∧ value ≤ 0xDBFF then readLowSurrogate value rest
  else .ok (Char.ofNat value, rest)

/-- The character that a single letter after a backslash stands for. -/
def plainEscape? : Char → Option Char
  | '"' => some '"'
  | '\\' => some '\\'
  | '/' => some '/'
  | 'b' => some '\x08'
  | 'f' => some '\x0c'
  | 'n' => some '\n'
  | 'r' => some '\r'
  | 't' => some '\t'
  | _ => none

/-- Reads what follows a backslash. -/
def readEscape : List Char → Except Fault (Char × List Char)
  | [] => .error .endInString
  | 'u' :: text => readUnicode text
  | c :: text =>
      match plainEscape? c with
      | some value => .ok (value, text)
      | none => .error .invalidEscape

/-- Passes over what follows a backslash. -/
def skipEscape : List Char → Except Fault (List Char)
  | [] => .error .endInString
  | 'u' :: text => do
      let (_, rest) ← readHex text
      .ok rest
  | c :: text =>
      match plainEscape? c with
      | some _ => .ok text
      | none => .error .invalidEscape

/-! ## Escapes use up text -/

theorem readHex_below (text : List Char) : Below text.length (readHex text) := by
  unfold readHex
  split
  · split
    · exact .ok (by simp only [List.length_cons]; omega)
    · exact .error _
  · exact .error _

theorem readLowSurrogate_below (high : Nat) (text : List Char) :
    Below text.length (readLowSurrogate high text) := by
  unfold readLowSurrogate
  split
  · exact .error _
  · exact .error _
  · refine ((readHex_below _).mono (by simp only [List.length_cons]; omega)).bind ?_
    intro low rest h
    dsimp only
    split
    · exact .ok h
    · exact .error _
  · exact .error _

theorem readUnicode_below (text : List Char) : Below text.length (readUnicode text) := by
  refine (readHex_below text).bind ?_
  intro value rest h
  dsimp only
  split
  · exact .error _
  · split
    · exact (readLowSurrogate_below value rest).mono (Nat.le_of_lt h)
    · exact .ok h

theorem readEscape_below (text : List Char) : Below text.length (readEscape text) := by
  unfold readEscape
  split
  · exact .error _
  · exact (readUnicode_below _).mono (Nat.le_succ _)
  · split
    · exact .ok (Nat.lt_succ_self _)
    · exact .error _

theorem length_lt_of_skipEscape {text rest : List Char} (h : skipEscape text = .ok rest) :
    rest.length < text.length := by
  unfold skipEscape at h
  split at h
  · cases h
  · rename_i text
    cases hex : readHex text with
    | error fault => simp [hex, bind, Except.bind] at h
    | ok first =>
        have := readHex_below text _ _ hex
        simp only [hex, bind, Except.bind, Except.ok.injEq] at h
        subst h
        simp only [List.length_cons]
        omega
  · split at h
    · cases h
      exact Nat.lt_succ_self _
    · cases h

/-! ## Whole strings -/

/-- Reads a string up to and with its closing quote; `read` is what has been read
    of it, backwards. -/
def readString (read : List Char) (text : List Char) : Except Fault (String × List Char) :=
  match text with
  | [] => .error .endInString
  | c :: rest =>
      if c = '"' then .ok (String.ofList read.reverse, rest)
      else if c = '\\' then
        match h : readEscape rest with
        | .error fault => .error fault
        | .ok (value, rest') =>
            have := readEscape_below rest _ _ h
            readString (value :: read) rest'
      else if c.toNat < 0x20 then .error .controlCharacter
      else readString (c :: read) rest
termination_by text.length
decreasing_by
  · simp only [List.length_cons]; omega
  · simp

/-- Passes over a string up to and with its closing quote. -/
def skipString (text : List Char) : Except Fault (List Char) :=
  match text with
  | [] => .error .endInString
  | c :: rest =>
      if c = '"' then .ok rest
      else if c = '\\' then
        match h : skipEscape rest with
        | .error fault => .error fault
        | .ok rest' =>
            have := length_lt_of_skipEscape h
            skipString rest'
      else if c.toNat < 0x20 then .error .controlCharacter
      else skipString rest
termination_by text.length
decreasing_by
  · simp only [List.length_cons]; omega
  · simp

theorem readString_below (read text : List Char) : Below text.length (readString read text) := by
  fun_induction readString read text with
  | case1 => exact .error _
  | case2 => exact .ok (by simp)
  | case3 => exact .error _
  | case4 _ _ _ _ _ _ _ ih => exact ih.mono (by simp only [List.length_cons]; omega)
  | case5 => exact .error _
  | case6 _ _ _ _ _ _ ih => exact ih.mono (by simp)

theorem length_lt_of_skipString {text rest : List Char} (h : skipString text = .ok rest) :
    rest.length < text.length := by
  fun_induction skipString text with
  | case1 => cases h
  | case2 => cases h; simp
  | case3 => cases h
  | case4 _ _ _ _ _ ih =>
      have := ih h
      simp only [List.length_cons]
      omega
  | case5 => cases h
  | case6 _ _ _ _ _ ih =>
      have := ih h
      simp only [List.length_cons]
      omega

/-! ## Writing -/

/-- A hexadecimal digit in lower case. -/
def hexChar (n : Nat) : Char :=
  if n < 10 then Char.ofNat (n + 48) else Char.ofNat (n + 87)

/-- A character inside a written string.  Only the quote, the backslash and the
    control characters below the space are escaped. -/
def escape (c : Char) : List Char :=
  if c = '"' then ['\\', '"']
  else if c = '\\' then ['\\', '\\']
  else if c = '\x08' then ['\\', 'b']
  else if c = '\x0c' then ['\\', 'f']
  else if c = '\n' then ['\\', 'n']
  else if c = '\r' then ['\\', 'r']
  else if c = '\t' then ['\\', 't']
  else if c.toNat < 0x20 then
    ['\\', 'u', '0', '0', hexChar (c.toNat / 16), hexChar (c.toNat % 16)]
  else [c]

/-- A string as it is written. -/
def writeString (text : String) : List Char :=
  ['"'] ++ text.toList.flatMap escape ++ ['"']

end Flowchart.Json
