/-
  Flowchart.Json.Number

  Numbers in a JSON text.  A numeral is read as its parts; its value is an
  integer when it has neither fraction nor exponent and fits 64 bits, and a
  double otherwise.
-/

import Flowchart.Json.Reader

namespace Flowchart.Json

/-! ## Numerals -/

/-- The parts of a numeral. -/
structure Numeral where
  negative : Bool
  whole : List Nat
  fraction : Option (List Nat)
  exponent : Option Int
deriving DecidableEq, Repr

/-- The digits a text starts with. -/
def leadingDigits (text : List Char) : List Nat :=
  (text.takeWhile Char.isDigit).map fun c => c.toNat - 48

/-- The text after the digits it starts with. -/
def afterDigits (text : List Char) : List Char :=
  text.dropWhile Char.isDigit

theorem length_afterDigits_le (text : List Char) : (afterDigits text).length ≤ text.length :=
  (List.dropWhile_suffix Char.isDigit).length_le

/-- Reads one digit or more.  `atEnd` is the fault of a text that ends first. -/
def readDigits (atEnd : Fault) (text : List Char) : Except Fault (List Nat × List Char) :=
  match text with
  | [] => .error atEnd
  | c :: _ =>
      if c.isDigit then .ok (leadingDigits text, afterDigits text) else .error .invalidNumber

/-- Reads the digits before the point.  A zero is not followed by further digits. -/
def readWhole (atEnd : Fault) (text : List Char) : Except Fault (List Nat × List Char) :=
  match text with
  | '0' :: c :: rest =>
      if c.isDigit then .error .invalidNumber else .ok ([0], c :: rest)
  | text => readDigits atEnd text

/-- Reads the point and the digits after it, if there is a point. -/
def readFraction (atEnd : Fault) :
    List Char → Except Fault (Option (List Nat) × List Char)
  | '.' :: text => do
      let (digits, rest) ← readDigits atEnd text
      .ok (some digits, rest)
  | text => .ok (none, text)

/-- The number that a list of digits spells. -/
def ofDigits (digits : List Nat) : Nat :=
  digits.foldl (fun n d => n * 10 + d) 0

/-- Reads the digits of an exponent whose sign is known. -/
def readPower (atEnd : Fault) (sign : Int) (text : List Char) :
    Except Fault (Option Int × List Char) := do
  let (digits, rest) ← readDigits atEnd text
  .ok (some (sign * ofDigits digits), rest)

/-- Reads the mark, the sign and the digits of an exponent, if there is a mark. -/
def readExponent (atEnd : Fault) : List Char → Except Fault (Option Int × List Char)
  | c :: text =>
      if c = 'e' ∨ c = 'E' then
        match text with
        | '+' :: text => readPower atEnd 1 text
        | '-' :: text => readPower atEnd (-1) text
        | text => readPower atEnd 1 text
      else .ok (none, c :: text)
  | [] => .ok (none, [])

/-- Reads a numeral after its sign.  `atEnd` is the fault of a text that ends where
    a digit has to stand. -/
def readNumeral (atEnd : Fault) (negative : Bool) (text : List Char) :
    Except Fault (Numeral × List Char) := do
  let (whole, rest) ← readWhole atEnd text
  let (fraction, rest) ← readFraction atEnd rest
  let (exponent, rest) ← readExponent atEnd rest
  .ok ({ negative, whole, fraction, exponent }, rest)

/-! ## Numerals use up text -/

theorem readDigits_below (atEnd : Fault) (text : List Char) :
    Below text.length (readDigits atEnd text) := by
  unfold readDigits
  split
  · exact .error _
  · rename_i c rest
    split
    · rename_i h
      refine .ok ?_
      simp only [afterDigits, List.dropWhile_cons, h, if_true, List.length_cons]
      exact Nat.lt_succ_of_le (length_afterDigits_le rest)
    · exact .error _

theorem readWhole_below (atEnd : Fault) (text : List Char) :
    Below text.length (readWhole atEnd text) := by
  unfold readWhole
  split
  · split
    · exact .error _
    · exact .ok (Nat.lt_succ_self _)
  · exact readDigits_below atEnd _

theorem readFraction_below (atEnd : Fault) {n : Nat} {text : List Char} (h : text.length < n) :
    Below n (readFraction atEnd text) := by
  unfold readFraction
  split
  · refine ((readDigits_below atEnd _).mono ?_).bind fun _ _ h => .ok h
    simp only [List.length_cons] at h
    omega
  · exact .ok h

theorem readPower_below (atEnd : Fault) (sign : Int) (text : List Char) :
    Below text.length (readPower atEnd sign text) :=
  (readDigits_below atEnd text).bind fun _ _ h => .ok h

theorem readExponent_below (atEnd : Fault) {n : Nat} {text : List Char} (h : text.length < n) :
    Below n (readExponent atEnd text) := by
  unfold readExponent
  split
  · simp only [List.length_cons] at h
    split
    · split
      · exact (readPower_below atEnd _ _).mono (by simp only [List.length_cons] at h; omega)
      · exact (readPower_below atEnd _ _).mono (by simp only [List.length_cons] at h; omega)
      · exact (readPower_below atEnd _ _).mono (by omega)
    · exact .ok (by simpa using h)
  · exact .ok h

theorem readNumeral_below (atEnd : Fault) (negative : Bool) (text : List Char) :
    Below text.length (readNumeral atEnd negative text) := by
  refine (readWhole_below atEnd text).bind fun _ _ h => ?_
  refine (readFraction_below atEnd h).bind fun _ _ h => ?_
  exact (readExponent_below atEnd h).bind fun _ _ h => .ok h

/-! ## Values -/

/-- Puts digits behind a number as long as it fits 64 bits, and gives the digits
    that are left. -/
def appendDigits (n : Nat) : List Nat → Nat × List Nat
  | [] => (n, [])
  | d :: digits =>
      if n * 10 + d < UInt64.size then appendDigits (n * 10 + d) digits else (n, d :: digits)

/-- A power of ten as a double. -/
def pow10 (n : Nat) : Float :=
  Float.ofScientific 1 false n

/-- The double `significand * 10 ^ exponent`, rounded after every step: the
    significand first, then the product or quotient with powers of ten up to the
    largest that a double can hold.  There is none if it is too large. -/
def scaled? (significand : Nat) (exponent : Int) : Option Float :=
  let f := (UInt64.ofNat significand).toFloat
  let n := exponent.natAbs
  if significand = 0 then some 0.0
  else if 0 ≤ exponent then
    if n ≤ 308 then
      let product := f * pow10 n
      if product.isInf then none else some product
    else none
  else if n ≤ 308 then some (f / pow10 n)
  else if n ≤ 616 then some (f / pow10 308 / pow10 (n - 308))
  else some 0.0

/-- What a numeral stands for: an integer or the bits of a double. -/
def Numeral.value (numeral : Numeral) : Except Fault Found :=
  let (head, dropped) := appendDigits 0 numeral.whole
  let digits := numeral.fraction.getD []
  let (significand, unused) := appendDigits head digits
  let float : Except Fault Found :=
    match scaled? significand
        (numeral.exponent.getD 0 + dropped.length - (digits.length - unused.length : Nat)) with
    | none => .error .numberOutOfRange
    | some f => .ok (.float (if numeral.negative then -f else f).toBits)
  if numeral.fraction.isSome ∨ numeral.exponent.isSome ∨ dropped ≠ [] then float
  else if !numeral.negative then .ok (.integer head)
  else if head = 0 ∨ UInt64.size / 2 < head then float
  else .ok (.integer (-head))

/-- Reads a number after its sign. -/
def readNumber (negative : Bool) (text : List Char) : Except Fault (Found × List Char) :=
  match readNumeral .endInValue negative text with
  | .error fault => .error fault
  | .ok (numeral, rest) =>
      match numeral.value with
      | .error fault => .error fault
      | .ok found => .ok (found, rest)

theorem readNumber_below (negative : Bool) (text : List Char) :
    Below text.length (readNumber negative text) := by
  unfold readNumber
  split
  · exact .error _
  · rename_i numeral rest h
    split
    · exact .error _
    · exact .ok (readNumeral_below _ _ _ _ _ h)

end Flowchart.Json
