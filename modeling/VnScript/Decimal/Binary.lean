namespace VnScript.Decimal

/-- A binary floating-point format: a sign bit, an exponent field and a
fraction field, the significand of a normal number having one bit more than
the fraction. -/
structure FloatFormat where
  fractionBits : Nat
  exponentBits : Nat

namespace FloatFormat

def single : FloatFormat := ⟨23, 8⟩

def double : FloatFormat := ⟨52, 11⟩

def minExponent (f : FloatFormat) : Int :=
  2 - (Nat.pow 2 (f.exponentBits - 1) : Int) - f.fractionBits

/-- The exponent field of the infinities and of what is no number. -/
def topField (f : FloatFormat) : Nat := Nat.pow 2 f.exponentBits - 1

def infinityBits (f : FloatFormat) : Nat := f.topField * Nat.pow 2 f.fractionBits

end FloatFormat

/-- The value of a bit pattern. A finite one is `significand * 2 ^ exponent`. -/
inductive BinaryNumber where
  | notANumber
  | infinite (negative : Bool)
  | finite (negative : Bool) (significand : Nat) (exponent : Int)

def FloatFormat.decode (f : FloatFormat) (bits : Nat) : BinaryNumber :=
  let fraction := bits % Nat.pow 2 f.fractionBits
  let field := bits / Nat.pow 2 f.fractionBits % Nat.pow 2 f.exponentBits
  let negative := bits / Nat.pow 2 (f.fractionBits + f.exponentBits) % 2 == 1
  if field = f.topField then
    if fraction = 0 then .infinite negative else .notANumber
  else if field = 0 then .finite negative fraction f.minExponent
  else .finite negative (Nat.pow 2 f.fractionBits + fraction) (f.minExponent + field - 1)

/-- The whole number nearest to a quotient; of two the even one. -/
def roundQuotient (num den : Nat) : Nat :=
  let quotient := num / den
  let twice := 2 * (num % den)
  if twice < den then quotient
  else if twice = den then quotient + quotient % 2
  else quotient + 1

def logQuotient (num den : Nat) : Int :=
  let estimate : Int := (Nat.log2 num : Int) - Nat.log2 den
  let reached := if 0 ≤ estimate then den * Nat.pow 2 estimate.toNat ≤ num
    else den ≤ num * Nat.pow 2 (-estimate).toNat
  if reached then estimate else estimate - 1

/-- The bits of the number nearest to `num / den`, ties to the even
significand. What lies beyond the largest number becomes infinite. -/
def FloatFormat.nearest (f : FloatFormat) (num den : Nat) : Nat :=
  if num = 0 then 0
  else
    let exponent := max f.minExponent (logQuotient num den - f.fractionBits)
    let significand := if 0 ≤ exponent then roundQuotient num (den * Nat.pow 2 exponent.toNat)
      else roundQuotient (num * Nat.pow 2 (-exponent).toNat) den
    -- A significand that reaches the next power of two carries into the field.
    let bits := if significand < Nat.pow 2 f.fractionBits then significand
      else (exponent - f.minExponent).toNat * Nat.pow 2 f.fractionBits + significand
    min bits f.infinityBits

/-- Read digits with an optional point among or behind them. -/
def FloatFormat.read? (f : FloatFormat) (s : String) : Option Nat :=
  let cs := s.toList
  let whole := cs.takeWhile Char.isDigit
  let part := match cs.dropWhile Char.isDigit with
    | [] => some []
    | c :: rest => if c = '.' && rest.all Char.isDigit then some rest else none
  part.bind fun part =>
    if whole.isEmpty && part.isEmpty then none
    else some (f.nearest (Nat.ofDigitChars 10 (whole ++ part) 0) (Nat.pow 10 part.length))

end VnScript.Decimal
