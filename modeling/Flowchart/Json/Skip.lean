/-
  Flowchart.Json.Skip

  Passing over a value nobody asked for.  Its syntax is checked, whatever its
  depth: the lists and objects that are open are kept in a list of their own.
-/

import Flowchart.Json.Number
import Flowchart.Json.Strings

namespace Flowchart.Json

/-! ## Scalars and keys -/

/-- Passes over a numeral after its sign. -/
def skipNumeral (negative : Bool) (text : List Char) : Except Fault (List Char) :=
  match readNumeral .invalidNumber negative text with
  | .error fault => .error fault
  | .ok (_, rest) => .ok rest

theorem length_lt_of_skipNumeral {negative : Bool} {text rest : List Char}
    (h : skipNumeral negative text = .ok rest) : rest.length < text.length := by
  unfold skipNumeral at h
  split at h
  · cases h
  · rename_i eq
    cases h
    exact readNumeral_below _ _ _ _ _ eq

/-- Passes over a value that is neither list nor object, at which the text starts. -/
def skipScalar : List Char → Except Fault (List Char)
  | [] => .error .endInValue
  | c :: text =>
      if c = 'n' then readWord "ull".toList text
      else if c = 't' then readWord "rue".toList text
      else if c = 'f' then readWord "alse".toList text
      else if c = '-' then skipNumeral true text
      else if c.isDigit then skipNumeral false (c :: text)
      else if c = '"' then skipString text
      else .error .expectedValue

theorem length_lt_of_skipScalar {text rest : List Char} (h : skipScalar text = .ok rest) :
    rest.length < text.length := by
  unfold skipScalar at h
  split at h
  · cases h
  · rename_i c text
    split at h
    · exact Nat.lt_succ_of_le (length_le_of_readWord h)
    split at h
    · exact Nat.lt_succ_of_le (length_le_of_readWord h)
    split at h
    · exact Nat.lt_succ_of_le (length_le_of_readWord h)
    split at h
    · exact Nat.lt_succ_of_lt (length_lt_of_skipNumeral h)
    split at h
    · exact length_lt_of_skipNumeral h
    split at h
    · exact Nat.lt_succ_of_lt (length_lt_of_skipString h)
    · cases h

/-- Passes over the key of a member and the colon after it. -/
def skipKey (text : List Char) : Except Fault (List Char) :=
  match skipSpace text with
  | [] => .error .endInObject
  | c :: rest =>
      if c = '"' then
        match skipString rest with
        | .error fault => .error fault
        | .ok rest => readColon rest
      else .error .keyNotString

theorem length_lt_of_skipKey {text rest : List Char} (h : skipKey text = .ok rest) :
    rest.length < text.length := by
  unfold skipKey at h
  split at h
  · cases h
  · rename_i c r start
    split at h
    · split at h
      · cases h
      · rename_i r' key
        have := length_lt_of_skipSpace start
        have := length_lt_of_skipString key
        have := length_lt_of_readColon h
        omega
    · cases h

/-! ## Whole values -/

/-- A list or an object that is still open. -/
inductive Frame where
  | list
  | object
deriving DecidableEq, Repr

namespace Frame

/-- The bracket that closes it. -/
def closer : Frame → Char
  | .list => ']'
  | .object => '\x7d'

/-- The fault of a text that ends before it is closed. -/
def atEnd : Frame → Fault
  | .list => .endInList
  | .object => .endInObject

/-- The fault of anything but a comma or the closing bracket after a value. -/
def expected : Frame → Fault
  | .list => .expectedCommaOrBracket
  | .object => .expectedCommaOrBrace

end Frame

/-- Where in a value the reading stands. -/
inductive Place where
  /-- A value has to start. -/
  | value
  /-- A list or an object has just been opened. -/
  | opened (frame : Frame)
  /-- A value has just ended. -/
  | after
deriving DecidableEq, Repr

/-- Goes from an open list or object to the value that comes next in it: an object
    has a key before it. -/
def skipToValue : Frame → List Char → Except Fault (List Char)
  | .list, text => .ok text
  | .object, text => skipKey text

theorem length_le_of_skipToValue {frame : Frame} {text rest : List Char}
    (h : skipToValue frame text = .ok rest) : rest.length ≤ text.length := by
  cases frame with
  | list => cases h; exact Nat.le_refl _
  | object => exact Nat.le_of_lt (length_lt_of_skipKey h)

/-- Passes over what is left of a value inside the frames that are open around it,
    the innermost first. -/
def skipFrom (place : Place) (frames : List Frame) (text : List Char) :
    Except Fault (List Char) :=
  match place with
  | .value =>
      match start : skipSpace text with
      | [] => .error .endInValue
      | c :: rest =>
          have := length_lt_of_skipSpace start
          if c = '[' then skipFrom (.opened .list) frames rest
          else if c = '\x7b' then skipFrom (.opened .object) frames rest
          else
            match h : skipScalar (c :: rest) with
            | .error fault => .error fault
            | .ok rest' =>
                have := length_lt_of_skipScalar h
                skipFrom .after frames rest'
  | .opened frame =>
      match start : skipSpace text with
      | [] => .error frame.atEnd
      | c :: rest =>
          have := length_lt_of_skipSpace start
          if c = frame.closer then skipFrom .after frames rest
          else
            match h : skipToValue frame (c :: rest) with
            | .error fault => .error fault
            | .ok rest' =>
                have := length_le_of_skipToValue h
                skipFrom .value (frame :: frames) rest'
  | .after =>
      match frames with
      | [] => .ok text
      | frame :: frames =>
          match start : skipSpace text with
          | [] => .error frame.atEnd
          | c :: rest =>
              have := length_lt_of_skipSpace start
              if c = ',' then
                match h : skipToValue frame rest with
                | .error fault => .error fault
                | .ok rest' =>
                    have := length_le_of_skipToValue h
                    skipFrom .value (frame :: frames) rest'
              else if c = frame.closer then skipFrom .after frames rest
              else .error frame.expected
termination_by 2 * text.length + (match place with | .opened _ => 1 | _ => 0)
decreasing_by
  all_goals simp_all only [List.length_cons]
  all_goals omega

/-- Something is used up, unless the value had already ended. -/
theorem length_le_of_skipFrom {place : Place} {frames : List Frame} {text rest : List Char}
    (h : skipFrom place frames text = .ok rest) :
    rest.length + (if place = .after then 0 else 1) ≤ text.length := by
  fun_induction skipFrom place frames text with
  | case1 | case4 | case6 | case8 | case11 | case12 | case15 => cases h
  | case10 => cases h; simp
  | case2 | case3 | case5 | case7 | case9 | case13 | case14 => grind

/-- Passes over a value. -/
def skipValue : Reader Unit where
  run text :=
    match skipFrom .value [] text with
    | .error fault => .error fault
    | .ok rest => .ok ((), rest)
  below text := by
    split
    · exact .error _
    · rename_i h
      exact .ok (length_le_of_skipFrom h)

end Flowchart.Json
