import VnScript.Decimal.Shortest

namespace VnScript.Decimal

def dropZeros (digits : List Char) : List Char :=
  (digits.reverse.dropWhile (· == '0')).reverse

/-- Digits with a point behind the first `point` of them, zeros filling the
gap, and at least one digit on each side. -/
def positional (digits : List Char) (point : Int) : List Char :=
  let whole := digits.take point.toNat ++ List.replicate (point.toNat - digits.length) '0'
  let part := List.replicate (-point).toNat '0' ++ digits.drop point.toNat
  (if whole.isEmpty then ['0'] else whole) ++ '.' :: (if part.isEmpty then ['0'] else part)

def scientific (digits : List Char) (point : Int) : List Char :=
  let part := match digits with
    | [] => []
    | [d] => [d]
    | d :: more => d :: '.' :: more
  part ++ 'e' :: (toString (point - 1)).toList

/-- Positional from 0.0001 up to but not including 10 ^ 16, scientific beyond. -/
def finiteText (f : FloatFormat) (significand : Nat) (exponent : Int) : List Char :=
  if significand = 0 then ['0', '.', '0']
  else
    let (n, e) := (Rounding.ofBinary f significand exponent).shortest
    let all := Nat.toDigits 10 n
    let point := all.length + e
    if -4 < point ∧ point ≤ 16 then positional (dropZeros all) point
    else scientific (dropZeros all) point

/-- The text of a bit pattern: the fewest digits that read back to it. -/
def FloatFormat.text (f : FloatFormat) (bits : Nat) : String :=
  match f.decode bits with
  | .notANumber => "NaN"
  | .infinite negative => if negative then "-inf" else "inf"
  | .finite negative significand exponent =>
    String.ofList ((if negative then ['-'] else []) ++ finiteText f significand exponent)

end VnScript.Decimal
