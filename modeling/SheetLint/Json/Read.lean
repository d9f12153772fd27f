import SheetLint.Json.Basic
import SheetLint.Text.Digit

/-!
Reading JSON text. Only the four JSON blanks are skipped, numbers have no leading zeros, strings hold no
control characters and no half of a surrogate pair, and nesting is limited.
-/
namespace SheetLint.Json

def isBlank (c : Char) : Bool := c == ' ' || c == '\t' || c == '\n' || c == '\r'

def skipBlanks (cs : List Char) : List Char := cs.dropWhile isBlank

def hexUnit? (a b c d : Char) : Option Nat := Text.hexValue? [a, b, c, d]

def isHighSurrogate (unit : Nat) : Bool := 0xd800 ≤ unit && unit ≤ 0xdbff

def isLowSurrogate (unit : Nat) : Bool := 0xdc00 ≤ unit && unit ≤ 0xdfff

def escapedChar? (c : Char) : Option Char :=
  match c with
  | '"' => some '"'
  | '\\' => some '\\'
  | '/' => some '/'
  | 'b' => some '\x08'
  | 'f' => some '\x0c'
  | 'n' => some '\n'
  | 'r' => some '\r'
  | 't' => some '\t'
  | _ => none

def readString : List Char → Option (List Char × List Char)
  | [] => none
  | '"' :: rest => some ([], rest)
  | '\\' :: 'u' :: a :: b :: c :: d :: '\\' :: 'u' :: e :: f :: g :: h :: rest =>
    match hexUnit? a b c d with
    | none => none
    | some unit =>
      if isHighSurrogate unit then
        match hexUnit? e f g h with
        | none => none
        | some low =>
          if isLowSurrogate low then
            let code := 0x10000 + (unit - 0xd800) * 0x400 + (low - 0xdc00)
            (readString rest).map fun p => (Char.ofNat code :: p.1, p.2)
          else none
      else if isLowSurrogate unit then none
      else (readString ('\\' :: 'u' :: e :: f :: g :: h :: rest)).map fun p =>
        (Char.ofNat unit :: p.1, p.2)
  | '\\' :: 'u' :: a :: b :: c :: d :: rest =>
    match hexUnit? a b c d with
    | none => none
    | some unit =>
      if isHighSurrogate unit || isLowSurrogate unit then none
      else (readString rest).map fun p => (Char.ofNat unit :: p.1, p.2)
  | '\\' :: c :: rest =>
    match escapedChar? c with
    | none => none
    | some e => (readString rest).map fun p => (e :: p.1, p.2)
  | c :: rest => if c.toNat < 0x20 then none else (readString rest).map fun p => (c :: p.1, p.2)

def maxSignificand : Nat := UInt64.size - 1

structure Significand where
  value : Nat := 0
  dropped : Nat := 0

def Significand.push (s : Significand) (c : Char) : Significand :=
  let next := s.value * 10 + Text.digitValue c
  if s.dropped = 0 ∧ next ≤ maxSignificand then { s with value := next }
  else { s with dropped := s.dropped + 1 }

def maxExponent : Nat := Nat.pow 2 31 - 1

def powerOfTen (n : Nat) : Float := Float.ofScientific 1 false n

/-- The product of a float and a power of ten. One multiplication or division is made for each 308
places, and overflow is an error. -/
def scale : Nat → Float → Int → Option Float
  | 0, f, _ => some f
  | fuel + 1, f, exponent =>
    if exponent.natAbs ≤ 308 then
      if 0 ≤ exponent then
        let product := f * powerOfTen exponent.natAbs
        if product.isInf then none else some product
      else some (f / powerOfTen exponent.natAbs)
    else if f == 0 then some f
    else if 0 ≤ exponent then none
    else scale fuel (f / powerOfTen 308) (exponent + 308)

def floatOf (negative : Bool) (significand : Nat) (exponent : Int) : Option Float :=
  (scale 8 (Float.ofNat significand) exponent).map fun f => if negative then -f else f

def readExponent (cs : List Char) : Option (Bool × List Char × List Char) :=
  let (negative, rest) := match cs with
    | '+' :: rest => (false, rest)
    | '-' :: rest => (true, rest)
    | rest => (false, rest)
  let digits := rest.takeWhile Char.isDigit
  if digits.isEmpty then none else some (negative, digits, rest.dropWhile Char.isDigit)

def finishFloat (negative : Bool) (s : Significand) (exponent : Int) (cs : List Char) :
    Option (Json × List Char) :=
  match cs with
  | c :: rest =>
    if c == 'e' || c == 'E' then do
      let (down, digits, after) ← readExponent rest
      let size := Text.decimalValue digits
      if maxExponent < size then
        if s.value != 0 && !down then none
        else return (.float (if negative then -0.0 else 0.0), after)
      else
        let total : Int := if down then exponent - size else exponent + size
        return (.float (← floatOf negative s.value total), after)
    else (floatOf negative s.value exponent).map fun f => (.float f, c :: rest)
  | [] => (floatOf negative s.value exponent).map fun f => (.float f, [])

def integerOf (negative : Bool) (value : Nat) : Json :=
  if negative then
    if value = 0 ∨ Nat.pow 2 63 < value then .float (-(Float.ofNat value)) else .integer (-value)
  else .integer value

def readNumber (negative : Bool) (cs : List Char) : Option (Json × List Char) :=
  let digits := cs.takeWhile Char.isDigit
  let rest := cs.dropWhile Char.isDigit
  if digits.isEmpty || (digits.length > 1 && digits.head? == some '0') then none
  else
    let whole := digits.foldl Significand.push {}
    match rest with
    | '.' :: after =>
      let places := after.takeWhile Char.isDigit
      if places.isEmpty then none
      else
        let kept := places.foldl Significand.push { whole with dropped := 0 }
        let taken := places.length - kept.dropped
        finishFloat negative kept ((whole.dropped : Int) - taken) (after.dropWhile Char.isDigit)
    | c :: _ =>
      if c == 'e' || c == 'E' then finishFloat negative whole whole.dropped rest
      else if whole.dropped = 0 then some (integerOf negative whole.value, rest)
      else finishFloat negative whole whole.dropped rest
    | [] =>
      if whole.dropped = 0 then some (integerOf negative whole.value, rest)
      else finishFloat negative whole whole.dropped rest

def readLiteral (word : String) (value : Json) (cs : List Char) : Option (Json × List Char) :=
  let expected := word.toList
  if expected.isPrefixOf cs then some (value, cs.drop expected.length) else none

mutual

def readValue : Nat → Nat → List Char → Option (Json × List Char)
  | 0, _, _ => none
  | fuel + 1, depth, cs =>
    match cs with
    | '\x7b' :: rest =>
      if depth = 0 then none
      else match skipBlanks rest with
        | '\x7d' :: after => some (.object [], after)
        | inner => (readFields fuel (depth - 1) inner).map fun p => (.object p.1, p.2)
    | '[' :: rest =>
      if depth = 0 then none
      else match skipBlanks rest with
        | ']' :: after => some (.array [], after)
        | inner => (readItems fuel (depth - 1) inner).map fun p => (.array p.1, p.2)
    | '"' :: rest => (readString rest).map fun p => (.string (.ofList p.1), p.2)
    | '-' :: rest => readNumber true rest
    | 't' :: _ => readLiteral "true" (.bool true) cs
    | 'f' :: _ => readLiteral "false" (.bool false) cs
    | 'n' :: _ => readLiteral "null" .null cs
    | _ => readNumber false cs

def readItems : Nat → Nat → List Char → Option (List Json × List Char)
  | 0, _, _ => none
  | fuel + 1, depth, cs =>
    match readValue fuel depth (skipBlanks cs) with
    | none => none
    | some (item, rest) =>
      match skipBlanks rest with
      | ']' :: after => some ([item], after)
      | ',' :: after => (readItems fuel depth after).map fun p => (item :: p.1, p.2)
      | _ => none

def readFields : Nat → Nat → List Char → Option (List (String × Json) × List Char)
  | 0, _, _ => none
  | fuel + 1, depth, cs =>
    match skipBlanks cs with
    | '"' :: start =>
      match readString start with
      | none => none
      | some (key, afterKey) =>
        match skipBlanks afterKey with
        | ':' :: beforeValue =>
          match readValue fuel depth (skipBlanks beforeValue) with
          | none => none
          | some (value, rest) =>
            let field := (String.ofList key, value)
            match skipBlanks rest with
            | '\x7d' :: after => some ([field], after)
            | ',' :: after => (readFields fuel depth after).map fun p => (field :: p.1, p.2)
            | _ => none
        | _ => none
    | _ => none

end

def maxDepth : Nat := 127

def read? (text : String) : Option Json :=
  let cs := text.toList
  match readValue (2 * cs.length + 2) maxDepth (skipBlanks cs) with
  | some (value, rest) => if (skipBlanks rest).isEmpty then some value else none
  | none => none

end SheetLint.Json
