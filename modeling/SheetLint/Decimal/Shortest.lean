/-!
The shortest decimal text of a binary floating-point number: the fewest digits that read back as the
same number, and of those the nearest. Everything is exact arithmetic on natural numbers.
-/
namespace SheetLint.Decimal

structure Scientific where
  digits : Nat
  exponent : Int
  deriving DecidableEq, Repr

structure Binary where
  mantissa : Nat
  exponent : Int
  deriving DecidableEq, Repr

def Binary.ofBits (bits : Nat) : Binary :=
  let fraction := bits % Nat.pow 2 52
  let exponent : Nat := bits / Nat.pow 2 52 % Nat.pow 2 11
  if exponent = 0 then ⟨fraction, -1074⟩ else ⟨fraction + Nat.pow 2 52, (exponent : Int) - 1075⟩

/-- The numbers that read as a given one lie between two fractions with the same denominator. The ends
belong to them if `closed`. -/
structure Interval where
  low : Nat
  value : Nat
  high : Nat
  denominator : Nat
  closed : Bool
  deriving DecidableEq, Repr

def Binary.interval (b : Binary) : Interval :=
  let atPower := b.mantissa = Nat.pow 2 52 ∧ b.exponent ≠ -1074
  let scale := Nat.pow 2 (b.exponent - 2).toNat
  { low := (4 * b.mantissa - if atPower then 1 else 2) * scale
    value := 4 * b.mantissa * scale
    high := (4 * b.mantissa + 2) * scale
    denominator := Nat.pow 2 (2 - b.exponent).toNat
    closed := b.mantissa % 2 = 0 }

def Interval.has (i : Interval) (digits up down : Nat) : Bool :=
  let x := digits * up * i.denominator
  if i.closed then i.low * down ≤ x && x ≤ i.high * down
  else i.low * down < x && x < i.high * down

def Interval.nearest? (i : Interval) (exponent : Int) : Option Scientific :=
  let up := Nat.pow 10 exponent.toNat
  let down := Nat.pow 10 (-exponent).toNat
  let unit := up * i.denominator
  let below := i.value * down / unit
  let twice := 2 * (i.value * down % unit)
  let above := below + 1
  let first := if twice < unit || (twice == unit && below % 2 == 0) then below else above
  let second := if first == below then above else below
  if first != 0 && i.has first up down then some ⟨first, exponent⟩
  else if second != 0 && i.has second up down then some ⟨second, exponent⟩
  else none

def Interval.search (i : Interval) : Nat → Int → Scientific
  | 0, exponent => ⟨i.value / i.denominator, exponent⟩
  | fuel + 1, exponent =>
    match i.nearest? exponent with
    | some s => s
    | none => search i fuel (exponent - 1)

/-- The shortest decimal of a positive finite number. No such number reaches `10 ^ 309`, and seventeen
digits always suffice. -/
def Binary.shortest (b : Binary) : Scientific := b.interval.search 650 309

def Scientific.positional (s : Scientific) : String :=
  let digits := Nat.toDigits 10 s.digits
  if 0 ≤ s.exponent then .ofList (digits ++ List.replicate s.exponent.toNat '0' ++ ['.', '0'])
  else
    let places := (-s.exponent).toNat
    let padded := List.replicate (places + 1 - digits.length) '0' ++ digits
    .ofList (padded.take (padded.length - places) ++ '.' :: padded.drop (padded.length - places))

def floatText (x : Float) : String :=
  let bits := x.toBits.toNat
  let sign := if bits / Nat.pow 2 63 = 1 then "-" else ""
  let b := Binary.ofBits (bits % Nat.pow 2 63)
  sign ++ (if b.mantissa = 0 then "0.0" else b.shortest.positional)

end SheetLint.Decimal
