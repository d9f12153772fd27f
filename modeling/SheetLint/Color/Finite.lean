import SheetLint.Text.Digit
import SheetLint.Text.Number

/-!
A guard on the numbers of a color function: each must stay finite in single precision, even after it
has been turned from turns into degrees. Numbers are found wherever they stand, also in comments.
-/
namespace SheetLint.Color
open Text (isDecimalDigit)

def exponentAt (cs : List Char) : List Char × List Char :=
  match cs with
  | e :: rest =>
    let sign := (rest.take 1).filter fun c => c == '+' || c == '-'
    let after := rest.drop sign.length
    let digits := after.takeWhile isDecimalDigit
    if (e == 'e' || e == 'E') && !digits.isEmpty then
      (e :: (sign ++ digits), after.dropWhile isDecimalDigit)
    else ([], cs)
  | [] => ([], [])

def decimalAt? (cs : List Char) : Option (List Char × List Char) :=
  let whole := cs.takeWhile isDecimalDigit
  let rest := cs.dropWhile isDecimalDigit
  match rest with
  | '.' :: after =>
    let fraction := after.takeWhile isDecimalDigit
    if whole.isEmpty && fraction.isEmpty then none
    else some (whole ++ '.' :: fraction, after.dropWhile isDecimalDigit)
  | _ => if whole.isEmpty then none else some (whole, rest)

def numberAt? (cs : List Char) : Option (List Char × List Char) :=
  let sign := (cs.take 1).filter fun c => c == '+' || c == '-'
  (decimalAt? (cs.drop sign.length)).map fun (body, rest) =>
    let (exponent, after) := exponentAt rest
    (sign ++ body ++ exponent, after)

def numbersIn : Nat → List Char → List (List Char)
  | _, [] => []
  | 0, _ => []
  | fuel + 1, c :: cs =>
    match numberAt? (c :: cs) with
    | some (number, rest) => number :: numbersIn fuel rest
    | none => numbersIn fuel cs

def magnitude (digits : List Char) (exponent : Int) : Float32 :=
  let significand := Text.decimalValue digits
  let size := (Nat.toDigits 10 significand).length + exponent
  if significand = 0 ∨ size < -60 then 0
  else if 60 < size then 1 / 0
  else Float32.ofScientific significand (decide (exponent < 0)) exponent.natAbs

def largestScale : Float32 := 360

def isFiniteNumber (number : List Char) : Bool :=
  let unsigned := number.filter fun c => c.isDigit || c == '.' || c == 'e' || c == 'E'
  let mantissa := unsigned.takeWhile fun c => c.isDigit || c == '.'
  let places := ((mantissa.dropWhile (· != '.')).drop 1).length
  let power := (unsigned.drop mantissa.length).drop 1
  let size := Text.decimalValue power
  let negative := (number.dropWhile fun c => c != 'e' && c != 'E').contains '-'
  let exponent : Int := (if negative then -(size : Int) else size) - places
  number.all (fun c => c.toNat < 0x80) &&
    (magnitude (mantissa.filter Char.isDigit) exponent * largestScale).isFinite

def hasFiniteNumbers (cs : List Char) : Bool := (numbersIn cs.length cs).all isFiniteNumber

end SheetLint.Color
