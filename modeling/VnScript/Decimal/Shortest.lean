import VnScript.Decimal.Binary

namespace VnScript.Decimal

/-- The positive number `value / den` with the ends of the interval of numbers
that round to it. The ends belong to it when `closed` holds. -/
structure Rounding where
  low : Nat
  value : Nat
  high : Nat
  den : Nat
  closed : Bool

namespace Rounding

/-- The interval of `significand * 2 ^ exponent`. It reaches half a unit up,
and half a unit down, or a quarter below a power of two. -/
def ofBinary (f : FloatFormat) (significand : Nat) (exponent : Int) : Rounding :=
  let down := if significand = Nat.pow 2 f.fractionBits ∧ f.minExponent < exponent then 1 else 2
  let factor := Nat.pow 2 (exponent - 2).toNat
  ⟨(4 * significand - down) * factor, 4 * significand * factor, (4 * significand + 2) * factor,
    Nat.pow 2 (2 - exponent).toNat, significand % 2 == 0⟩

def inUnits (r : Rounding) (e : Int) : Rounding :=
  let factor := Nat.pow 10 (-e).toNat
  ⟨r.low * factor, r.value * factor, r.high * factor, r.den * Nat.pow 10 e.toNat, r.closed⟩

def contains (r : Rounding) (n : Nat) : Bool :=
  if r.closed then r.low ≤ n * r.den && n * r.den ≤ r.high
  else r.low < n * r.den && n * r.den < r.high

/-- The whole number in the interval that is nearest to the value, the upper
one of two. -/
def whole? (r : Rounding) : Option Nat :=
  let n := r.value / r.den
  if r.contains n then
    if r.contains (n + 1) && r.den ≤ 2 * (r.value % r.den) then some (n + 1) else some n
  else if r.contains (n + 1) then some (n + 1)
  else none

/-- The number of digits before the point; not positive for small values. -/
def magnitude (r : Rounding) : Int :=
  let estimate : Int := (Nat.toDigits 10 r.value).length - (Nat.toDigits 10 r.den).length
  let unit := r.inUnits estimate
  if unit.value < unit.den then estimate else estimate + 1

/-- The fewest digits that read back, as a whole number and a power of ten. -/
def shortest (r : Rounding) : Nat × Int :=
  let attempt (digits : Nat) : Option (Nat × Int) :=
    let e := r.magnitude - (digits + 1)
    (r.inUnits e).whole?.map (·, e)
  ((List.range 17).findSome? attempt).getD (r.value, 0)

end Rounding

end VnScript.Decimal
