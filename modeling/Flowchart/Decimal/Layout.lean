/-
  Flowchart.Decimal.Layout

  Decimals as text: written out, or as digits and a power of ten.
-/

import Flowchart.Decimal.Shortest

namespace Flowchart.Decimal

/-- Which decimals are written out: those whose first digit stands for a power of
    ten between these two. -/
structure Layout where
  lowest : Int
  highest : Int
deriving DecidableEq, Repr

namespace Layout

/-- A decimal written out, with at least one digit on each side of the point; `lead`
    is the power of ten its first digit stands for. -/
def writtenOut (digits : List Char) (lead : Int) : List Char :=
  let places := (lead + 1).toNat
  if lead < 0 then ['0', '.'] ++ List.replicate (-lead - 1).toNat '0' ++ digits
  else if digits.length ≤ places then
    digits ++ List.replicate (places - digits.length) '0' ++ ['.', '0']
  else digits.take places ++ ['.'] ++ digits.drop places

/-- A decimal with the point behind its first digit and a signed power of ten. -/
def powered (digits : List Char) (lead : Int) : List Char :=
  let fraction := if digits.length = 1 then [] else '.' :: digits.drop 1
  digits.take 1 ++ fraction ++ ['e', if lead < 0 then '-' else '+']
    ++ Nat.toDigits 10 lead.natAbs

/-- The text of a decimal. -/
def write (layout : Layout) (d : Decimal) : List Char :=
  let digits := Nat.toDigits 10 d.digits
  let lead := d.exponent + digits.length - 1
  if layout.lowest ≤ lead ∧ lead ≤ layout.highest then writtenOut digits lead
  else powered digits lead

/-- The text of a finite double, given by its bits. -/
def text (layout : Layout) (bits : UInt64) : String :=
  let n := bits.toNat
  let sign := if n < UInt64.size / 2 then [] else ['-']
  String.ofList (sign ++ layout.write (ofBits (n % (UInt64.size / 2))))

end Layout

end Flowchart.Decimal
