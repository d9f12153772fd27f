import SheetLint.Text.Basic
import SheetLint.Text.Digit

/-!
The tokens between the parentheses of a color function. Blanks and comments separate tokens and are
none themselves. A text with anything else in it has no tokens.
-/
namespace SheetLint
open Text (isAsciiBlank)

inductive ColorToken where
  | number (value : Float32)
  | percentage (unit : Float32)
  | dimension (value : Float32) (unit : List Char)
  | name (name : List Char)
  | hash (digits : List Char)
  | comma
  | slash
  deriving Repr

namespace ColorToken

def wholePart (digits : List Char) : Float :=
  digits.foldl (fun value d => value * 10 + Float.ofNat (Text.digitValue d)) 0

def fractionPart (digits : List Char) : Float :=
  (digits.foldl
    (fun (value, factor) d => (value + Float.ofNat (Text.digitValue d) * factor, factor * 0.1))
    ((0, 0.1) : Float × Float)).1

def powerOfTen (negative : Bool) (digits : List Char) : Float :=
  let exponent := digits.foldl (fun n d => min 1000 (n * 10 + Text.digitValue d)) 0
  Float.ofScientific 1 negative exponent

def readSign : List Char → Bool × List Char
  | '+' :: rest => (false, rest)
  | '-' :: rest => (true, rest)
  | rest => (false, rest)

def readFraction : List Char → List Char × List Char
  | '.' :: rest =>
    let digits := rest.takeWhile Char.isDigit
    if digits.isEmpty then ([], '.' :: rest) else (digits, rest.dropWhile Char.isDigit)
  | rest => ([], rest)

def readExponent : List Char → Option (Bool × List Char × List Char)
  | c :: rest =>
    if c == 'e' || c == 'E' then
      let (negative, after) := readSign rest
      let digits := after.takeWhile Char.isDigit
      if digits.isEmpty then none else some (negative, digits, after.dropWhile Char.isDigit)
    else none
  | [] => none

def readNumber (cs : List Char) : Option (Float × List Char) :=
  let (negative, unsigned) := readSign cs
  let whole := unsigned.takeWhile Char.isDigit
  let (fraction, rest) := readFraction (unsigned.dropWhile Char.isDigit)
  if whole.isEmpty && fraction.isEmpty then none
  else
    let sign : Float := if negative then -1 else 1
    let value := sign * (wholePart whole + fractionPart fraction)
    match readExponent rest with
    | some (down, digits, after) => some (value * powerOfTen down digits, after)
    | none => some (value, rest)

def isNameStartChar (c : Char) : Bool := c.isAlpha || c == '_' || c.toNat = 0 || 0x80 ≤ c.toNat

def isNameChar (c : Char) : Bool := isNameStartChar c || c.isDigit || c == '-'

def isLineEnd (c : Char) : Bool := c == '\n' || c == '\r' || c == '\x0c'

def startsName : List Char → Bool
  | '\\' :: c :: _ => !isLineEnd c
  | ['\\'] => true
  | '-' :: '-' :: _ => true
  | '-' :: '\\' :: c :: _ => !isLineEnd c
  | ['-', '\\'] => true
  | '-' :: c :: _ => isNameStartChar c
  | c :: _ => isNameStartChar c
  | [] => false

def charOfCode (code : Nat) : Char :=
  if code = 0 ∨ !Text.isCharCode code then Char.ofNat 0xfffd else Char.ofNat code

def skipBlank : List Char → List Char
  | '\r' :: '\n' :: rest => rest
  | c :: rest => if isAsciiBlank c then rest else c :: rest
  | [] => []

def readEscape : List Char → Char × List Char
  | [] => (Char.ofNat 0xfffd, [])
  | c :: rest =>
    let digits := ((c :: rest).take 6).takeWhile fun d => (Text.hexDigit? d).isSome
    if digits.isEmpty then (charOfCode c.toNat, rest)
    else
      (charOfCode ((Text.hexValue? digits).getD 0), skipBlank ((c :: rest).drop digits.length))

def readName : Nat → List Char → List Char × List Char
  | 0, cs => ([], cs)
  | fuel + 1, '\\' :: rest =>
    if rest.head?.any isLineEnd then ([], '\\' :: rest)
    else
      let (c, after) := readEscape rest
      let (more, last) := readName fuel after
      (c :: more, last)
  | fuel + 1, c :: rest =>
    if isNameChar c then
      let (more, last) := readName fuel rest
      (charOfCode c.toNat :: more, last)
    else ([], c :: rest)
  | _, [] => ([], [])

def skipComment : List Char → List Char
  | '*' :: '/' :: rest => rest
  | _ :: rest => skipComment rest
  | [] => []

def ofNumber (value : Float) (rest : List Char) : ColorToken × List Char :=
  match rest with
  | '%' :: after => (percentage (value / 100).toFloat32, after)
  | _ =>
    if startsName rest then
      let (unit, after) := readName rest.length rest
      (dimension value.toFloat32 unit, after)
    else (number value.toFloat32, rest)

def readAll : Nat → List Char → Option (List ColorToken)
  | _, [] => some []
  | 0, _ => none
  | fuel + 1, c :: rest =>
    match c, rest with
    | ',', _ => (readAll fuel rest).map (comma :: ·)
    | '/', '*' :: after => readAll fuel (skipComment after)
    | '/', _ => (readAll fuel rest).map (slash :: ·)
    | '#', _ =>
      if rest.head?.any isNameChar || (rest.head? == some '\\' && startsName rest) then
        let (digits, after) := readName rest.length rest
        (readAll fuel after).map (hash digits :: ·)
      else none
    | _, _ =>
      if isAsciiBlank c then readAll fuel rest
      else
        match readNumber (c :: rest) with
        | some (value, after) =>
          let (token, last) := ofNumber value after
          (readAll fuel last).map (token :: ·)
        | none =>
          if startsName (c :: rest) then
            let (chars, after) := readName (rest.length + 1) (c :: rest)
            (readAll fuel after).map (name chars :: ·)
          else none

def ofText? (cs : List Char) : Option (List ColorToken) := readAll cs.length cs

end ColorToken
end SheetLint
