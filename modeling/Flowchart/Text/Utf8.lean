/-
  Flowchart.Text.Utf8

  Texts as bytes in UTF-8.  Bytes that are no text are refused with the length
  of the valid part before them and the length of the part that cannot be
  continued, if it is not merely cut short.
-/

namespace Flowchart.Text

/-! ## Writing -/

/-- The bytes of a character. -/
def utf8Char (c : Char) : List UInt8 :=
  let n := c.toNat
  if n < 0x80 then [UInt8.ofNat n]
  else if n < 0x800 then [UInt8.ofNat (0xC0 + n / 64), UInt8.ofNat (0x80 + n % 64)]
  else if n < 0x10000 then
    [UInt8.ofNat (0xE0 + n / 4096), UInt8.ofNat (0x80 + n / 64 % 64),
     UInt8.ofNat (0x80 + n % 64)]
  else
    [UInt8.ofNat (0xF0 + n / 262144), UInt8.ofNat (0x80 + n / 4096 % 64),
     UInt8.ofNat (0x80 + n / 64 % 64), UInt8.ofNat (0x80 + n % 64)]

/-- The bytes of a text. -/
def utf8Bytes (text : String) : List UInt8 :=
  text.toList.flatMap utf8Char

/-! ## Reading -/

/-- Where bytes stop being text. -/
structure Utf8Fault where
  /-- How many bytes are valid. -/
  validUpTo : Nat
  /-- How many bytes after them cannot be the start of a character, if the bytes
      do not just end too early. -/
  badLength : Option Nat
deriving DecidableEq, Repr

/-- The byte continues a character. -/
def isContinuation (b : Nat) : Bool :=
  0x80 ≤ b ∧ b ≤ 0xBF

/-- The byte may be the second one of three after `first`: forms that are too long
    and surrogates are left out. -/
def isSecondOfThree (first second : Nat) : Bool :=
  (if first = 0xE0 then 0xA0 else 0x80) ≤ second
    ∧ second ≤ (if first = 0xED then 0x9F else 0xBF)

/-- The byte may be the second one of four after `first`: forms that are too long
    and numbers that are too large are left out. -/
def isSecondOfFour (first second : Nat) : Bool :=
  (if first = 0xF0 then 0x90 else 0x80) ≤ second
    ∧ second ≤ (if first = 0xF4 then 0x8F else 0xBF)

/-- The number that continuation bytes add to: six bits more. -/
def addBits (high : Nat) (b : UInt8) : Nat :=
  high * 64 + (b.toNat - 0x80)

/-- Reads the last byte of a character after `length` good ones. -/
def readLastByte (length high : Nat) : List UInt8 → Except (Option Nat) (Char × List UInt8)
  | [] => .error none
  | b :: rest =>
      if isContinuation b.toNat then .ok (Char.ofNat (addBits high b), rest)
      else .error (some length)

/-- Reads the last two bytes of a character of three, whose first byte is `a`. -/
def readTwoOfThree (a : Nat) : List UInt8 → Except (Option Nat) (Char × List UInt8)
  | [] => .error none
  | b :: rest =>
      if isSecondOfThree a b.toNat then readLastByte 2 (addBits (a - 0xE0) b) rest
      else .error (some 1)

/-- Reads the last two bytes of a character of four. -/
def readTwoOfFour (high : Nat) : List UInt8 → Except (Option Nat) (Char × List UInt8)
  | [] => .error none
  | b :: rest =>
      if isContinuation b.toNat then readLastByte 3 (addBits high b) rest
      else .error (some 2)

/-- Reads the last three bytes of a character of four, whose first byte is `a`. -/
def readThreeOfFour (a : Nat) : List UInt8 → Except (Option Nat) (Char × List UInt8)
  | [] => .error none
  | b :: rest =>
      if isSecondOfFour a b.toNat then readTwoOfFour (addBits (a - 0xF0) b) rest
      else .error (some 1)

/-- Reads the character that starts with a given byte, or gives the length of the
    part that cannot be continued. -/
def readUtf8Char (first : UInt8) (bytes : List UInt8) :
    Except (Option Nat) (Char × List UInt8) :=
  let a := first.toNat
  if a < 0x80 then .ok (Char.ofNat a, bytes)
  else if a < 0xC2 then .error (some 1)
  else if a < 0xE0 then readLastByte 1 (a - 0xC0) bytes
  else if a < 0xF0 then readTwoOfThree a bytes
  else if a < 0xF5 then readThreeOfFour a bytes
  else .error (some 1)

/-! ## Characters use up bytes -/

section

variable {bytes rest : List UInt8} {c : Char}

theorem length_le_of_readLastByte {length high : Nat}
    (h : readLastByte length high bytes = .ok (c, rest)) : rest.length ≤ bytes.length := by
  unfold readLastByte at h
  split at h
  · cases h
  · split at h
    · injection h with h
      injection h with _ h
      subst h
      exact Nat.le_succ _
    · cases h

theorem length_le_of_readTwoOfThree {a : Nat} (h : readTwoOfThree a bytes = .ok (c, rest)) :
    rest.length ≤ bytes.length := by
  unfold readTwoOfThree at h
  split at h
  · cases h
  · split at h
    · exact Nat.le_succ_of_le (length_le_of_readLastByte h)
    · cases h

theorem length_le_of_readTwoOfFour {high : Nat} (h : readTwoOfFour high bytes = .ok (c, rest)) :
    rest.length ≤ bytes.length := by
  unfold readTwoOfFour at h
  split at h
  · cases h
  · split at h
    · exact Nat.le_succ_of_le (length_le_of_readLastByte h)
    · cases h

theorem length_le_of_readThreeOfFour {a : Nat} (h : readThreeOfFour a bytes = .ok (c, rest)) :
    rest.length ≤ bytes.length := by
  unfold readThreeOfFour at h
  split at h
  · cases h
  · split at h
    · exact Nat.le_succ_of_le (length_le_of_readTwoOfFour h)
    · cases h

/-- What is left after a character is no longer than what followed its first byte. -/
theorem length_le_of_readUtf8Char {first : UInt8}
    (h : readUtf8Char first bytes = .ok (c, rest)) : rest.length ≤ bytes.length := by
  unfold readUtf8Char at h
  dsimp only at h
  split at h
  · injection h with h
    injection h with _ h
    subst h
    exact Nat.le_refl _
  split at h
  · cases h
  split at h
  · exact length_le_of_readLastByte h
  split at h
  · exact length_le_of_readTwoOfThree h
  split at h
  · exact length_le_of_readThreeOfFour h
  · cases h

end

/-! ## Whole texts -/

/-- Reads bytes as text; `valid` bytes before them have been read as the characters
    in `read`, backwards. -/
def readUtf8 (valid : Nat) (read : List Char) (bytes : List UInt8) :
    Except Utf8Fault String :=
  match bytes with
  | [] => .ok (String.ofList read.reverse)
  | first :: rest =>
      match h : readUtf8Char first rest with
      | .error badLength => .error { validUpTo := valid, badLength }
      | .ok (c, rest') =>
          have := length_le_of_readUtf8Char h
          readUtf8 (valid + (rest.length + 1 - rest'.length)) (c :: read) rest'
termination_by bytes.length
decreasing_by simp only [List.length_cons]; omega

/-- The text that bytes stand for. -/
def ofUtf8 (bytes : List UInt8) : Except Utf8Fault String :=
  readUtf8 0 [] bytes

end Flowchart.Text
