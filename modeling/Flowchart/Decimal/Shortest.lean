/-
  Flowchart.Decimal.Shortest

  The fewest decimal digits that read back as a given double.  A finite double
  is `m * 2 ^ q`; every real between its two half-way points reads back as it,
  the half-way points themselves when `m` is even.  All comparisons are between
  natural numbers: everything is scaled by `2 ^ 1076`, which makes the half-way
  points of the smallest doubles whole.
-/

namespace Flowchart

/-- The number `digits * 10 ^ exponent`. -/
structure Decimal where
  digits : Nat
  exponent : Int
deriving DecidableEq, Repr

namespace Decimal

/-- A positive double, scaled: its value and the distances to the half-way points
    below and above it. -/
structure Interval where
  value : Nat
  below : Nat
  above : Nat
  /-- The half-way points belong to it. -/
  closed : Bool
deriving DecidableEq, Repr

/-- What one is scaled to. -/
def scale : Nat := Nat.pow 2 1076

/-- The interval of a positive double given by the bits of its exponent and of its
    fraction.  Just above a power of two the doubles below lie closer. -/
def Interval.ofBits (exponent fraction : Nat) : Interval :=
  let m := if exponent = 0 then fraction else Nat.pow 2 52 + fraction
  let unit := Nat.pow 2 (exponent - 1)
  { value := 4 * m * unit
    below := if fraction = 0 ∧ 1 < exponent then unit else 2 * unit
    above := 2 * unit
    closed := m % 2 = 0 }

/-- How many digits stand before the decimal point of a scaled value; zero or less
    when the first of them stands behind it. -/
def Interval.magnitude (v : Interval) : Int :=
  (Nat.toDigits 10 (v.value * Nat.pow 10 400 / scale)).length - 400

/-- The multiple of `10 ^ exponent` next to the value that lies in the interval: the
    nearer of two, and of two equally near ones the even one. -/
def Interval.onGrid (v : Interval) (exponent : Int) : Option Nat :=
  let unit := scale * Nat.pow 10 exponent.toNat
  let stretch := Nat.pow 10 (-exponent).toNat
  let value := v.value * stretch
  let low := value / unit
  let inside (distance limit : Nat) : Bool :=
    if v.closed then distance ≤ limit else distance < limit
  let down := value - low * unit
  let up := (low + 1) * unit - value
  match inside down (v.below * stretch), inside up (v.above * stretch) with
  | true, true =>
      if down < up then some low
      else if up < down then some (low + 1)
      else some (if low % 2 = 0 then low else low + 1)
  | true, false => some low
  | false, true => some (low + 1)
  | false, false => none

/-- The decimal in the interval with the fewest digits.  Seventeen are always enough. -/
def Interval.shortest (v : Interval) : Decimal :=
  let found := (List.range 17).findSome? fun n =>
    let exponent := v.magnitude - (n + 1 : Nat)
    (v.onGrid exponent).map fun digits => (⟨digits, exponent⟩ : Decimal)
  found.getD ⟨0, 0⟩

/-- The same number with the zeros at the end of its digits moved to the exponent. -/
def trim (d : Decimal) : Decimal :=
  if d.digits = 0 then ⟨0, 0⟩
  else if d.digits % 10 = 0 then trim ⟨d.digits / 10, d.exponent + 1⟩
  else d
termination_by d.digits
decreasing_by omega

/-- The shortest decimal of a finite double, given by its bits without the sign. -/
def ofBits (bits : Nat) : Decimal :=
  let exponent := bits / Nat.pow 2 52 % Nat.pow 2 11
  let fraction := bits % Nat.pow 2 52
  if exponent = 0 ∧ fraction = 0 then ⟨0, 0⟩
  else (Interval.ofBits exponent fraction).shortest.trim

end Decimal

end Flowchart
