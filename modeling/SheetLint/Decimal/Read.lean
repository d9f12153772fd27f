import SheetLint.Text.Digit

/-!
The nearest binary floating-point number of a decimal one.
-/
namespace SheetLint.Decimal

def toFloat (digits : Nat) (exponent : Int) : Float :=
  let size := (Nat.toDigits 10 digits).length + exponent
  if digits = 0 ∨ size < -400 then 0
  else if 400 < size then 1 / 0
  else Float.ofScientific digits (decide (exponent < 0)) exponent.natAbs

end SheetLint.Decimal
