import SheetLint.Decimal.Read
import SheetLint.Text.Basic
import SheetLint.Toml.Value

/-!
Keys, strings, numbers and dates of TOML.
-/
namespace SheetLint.Toml

def isBlank (c : Char) : Bool := c == ' ' || c == '\t'

def skipBlanks (cs : List Char) : List Char := cs.dropWhile isBlank

def isPlain (c : Char) : Bool := c == '\t' || (0x20 ≤ c.toNat && c.toNat != 0x7f)

def skipNewline? : List Char → Option (List Char)
  | '\n' :: rest => some rest
  | '\r' :: '\n' :: rest => some rest
  | _ => none

def skipNewline (cs : List Char) : List Char := (skipNewline? cs).getD cs

def skipComment : List Char → List Char
  | '#' :: rest => rest.dropWhile isPlain
  | cs => cs

def skipLines : Nat → List Char → List Char
  | 0, cs => cs
  | fuel + 1, cs =>
    let rest := skipComment (skipBlanks cs)
    match skipNewline? rest with
    | some after => skipLines fuel after
    | none => rest

/-! ## Strings -/

def readCode (size : Nat) (cs : List Char) : Option (Char × List Char) :=
  match Text.hexValue? (cs.take size) with
  | some code =>
    if cs.length < size || !Text.isCharCode code then none else some (Char.ofNat code, cs.drop size)
  | none => none

def readEscape (cs : List Char) : Option (Char × List Char) :=
  match cs with
  | 'b' :: rest => some ('\x08', rest)
  | 't' :: rest => some ('\t', rest)
  | 'n' :: rest => some ('\n', rest)
  | 'f' :: rest => some ('\x0c', rest)
  | 'r' :: rest => some ('\r', rest)
  | '"' :: rest => some ('"', rest)
  | '\\' :: rest => some ('\\', rest)
  | 'u' :: rest => readCode 4 rest
  | 'U' :: rest => readCode 8 rest
  | _ => none

def readBasic : Nat → List Char → Option (List Char × List Char)
  | 0, _ => none
  | fuel + 1, cs =>
    match cs with
    | [] => none
    | '"' :: rest => some ([], rest)
    | '\\' :: rest =>
      match readEscape rest with
      | none => none
      | some (c, after) => (readBasic fuel after).map fun p => (c :: p.1, p.2)
    | c :: rest => if isPlain c then (readBasic fuel rest).map fun p => (c :: p.1, p.2) else none

def readLiteral : List Char → Option (List Char × List Char)
  | [] => none
  | '\'' :: rest => some ([], rest)
  | c :: rest => if isPlain c then (readLiteral rest).map fun p => (c :: p.1, p.2) else none

def skipFolded? (cs : List Char) : Option (List Char) :=
  (skipNewline? (skipBlanks cs)).map fun rest =>
    rest.dropWhile fun c => isBlank c || c == '\n' || c == '\r'

def closeLong? (quote : Char) (cs : List Char) : Option (List Char × List Char) :=
  let run := (cs.takeWhile (· == quote)).length
  if run < 3 then none
  else
    let extra := min (run - 3) 2
    some (List.replicate extra quote, cs.drop (extra + 3))

def readLongBasic : Nat → List Char → Option (List Char × List Char)
  | 0, _ => none
  | fuel + 1, cs =>
    match closeLong? '"' cs with
    | some done => some done
    | none =>
      match cs with
      | [] => none
      | '\\' :: rest =>
        match skipFolded? rest with
        | some after => readLongBasic fuel after
        | none =>
          match readEscape rest with
          | none => none
          | some (c, after) => (readLongBasic fuel after).map fun p => (c :: p.1, p.2)
      | c :: rest =>
        match skipNewline? cs with
        | some after => (readLongBasic fuel after).map fun p => ('\n' :: p.1, p.2)
        | none =>
          if isPlain c then (readLongBasic fuel rest).map fun p => (c :: p.1, p.2) else none

def readLongLiteral : Nat → List Char → Option (List Char × List Char)
  | 0, _ => none
  | fuel + 1, cs =>
    match closeLong? '\'' cs with
    | some done => some done
    | none =>
      match cs with
      | [] => none
      | c :: rest =>
        match skipNewline? cs with
        | some after => (readLongLiteral fuel after).map fun p => ('\n' :: p.1, p.2)
        | none =>
          if isPlain c then (readLongLiteral fuel rest).map fun p => (c :: p.1, p.2) else none

def readString (cs : List Char) : Option (String × List Char) :=
  let text (p : List Char × List Char) := (String.ofList p.1, p.2)
  match cs with
  | '"' :: '"' :: '"' :: rest => (readLongBasic (rest.length + 1) (skipNewline rest)).map text
  | '\'' :: '\'' :: '\'' :: rest => (readLongLiteral (rest.length + 1) (skipNewline rest)).map text
  | '"' :: rest => (readBasic (rest.length + 1) rest).map text
  | '\'' :: rest => (readLiteral rest).map text
  | _ => none

/-! ## Keys -/

def isBareKeyChar (c : Char) : Bool := c.isAlphanum || c == '-' || c == '_'

def readKeyPart (cs : List Char) : Option (String × List Char) :=
  let text (p : List Char × List Char) := (String.ofList p.1, p.2)
  match cs with
  | '"' :: rest => (readBasic (rest.length + 1) rest).map text
  | '\'' :: rest => (readLiteral rest).map text
  | _ =>
    let name := cs.takeWhile isBareKeyChar
    if name.isEmpty then none else some (.ofList name, cs.dropWhile isBareKeyChar)

def readKey : Nat → List Char → Option (List String × List Char)
  | 0, _ => none
  | fuel + 1, cs =>
    match readKeyPart (skipBlanks cs) with
    | none => none
    | some (part, rest) =>
      match skipBlanks rest with
      | '.' :: after => (readKey fuel after).map fun p => (part :: p.1, p.2)
      | after => some ([part], after)

/-! ## Numbers -/

def readDigits (isDigit : Char → Bool) : List Char → Option (List Char × List Char)
  | [] => none
  | c :: rest =>
    if isDigit c then
      match rest with
      | '_' :: d :: more =>
        if isDigit d then (readDigits isDigit (d :: more)).map fun p => (c :: p.1, p.2) else none
      | ['_'] => none
      | d :: more =>
        if isDigit d then (readDigits isDigit (d :: more)).map fun p => (c :: p.1, p.2)
        else some ([c], d :: more)
      | [] => some ([c], [])
    else none

def inRange (n : Int) : Bool := Int64.minValue.toInt ≤ n && n ≤ Int64.maxValue.toInt

def readRadix (base : Nat) (cs : List Char) : Option (Toml × List Char) := do
  let isDigit (c : Char) := (Text.hexDigit? c).any (· < base)
  let (digits, rest) ← readDigits isDigit cs
  let value := digits.foldl (fun n c => n * base + (Text.hexDigit? c).getD 0) 0
  if inRange value then some (.integer value, rest) else none

def readSign : List Char → Bool × List Char
  | '+' :: rest => (false, rest)
  | '-' :: rest => (true, rest)
  | rest => (false, rest)

def startsWith (word : String) (cs : List Char) : Bool := word.toList.isPrefixOf cs

def readFraction (cs : List Char) : Option (List Char × List Char) :=
  match cs with
  | '.' :: rest => readDigits Char.isDigit rest
  | _ => some ([], cs)

def readExponent (cs : List Char) : Option (Int × List Char) :=
  match cs with
  | c :: rest =>
    if c == 'e' || c == 'E' then do
      let (negative, unsigned) := readSign rest
      let (digits, after) ← readDigits Char.isDigit unsigned
      let size : Int := Text.decimalValue digits
      return (if negative then -size else size, after)
    else some (0, cs)
  | [] => some (0, [])

def readDecimal (cs : List Char) : Option (Toml × List Char) := do
  let (negative, unsigned) := readSign cs
  if startsWith "inf" unsigned then
    return (.float (if negative then -(1 / 0) else 1 / 0), unsigned.drop 3)
  else if startsWith "nan" unsigned then return (.float (0 / 0), unsigned.drop 3)
  else
    let (whole, rest) ← readDigits Char.isDigit unsigned
    if whole.length > 1 && whole.head? == some '0' then none
    else
      let (fraction, afterFraction) ← readFraction rest
      let (exponent, after) ← readExponent afterFraction
      if afterFraction.length == rest.length && after.length == rest.length then
        let value : Int := Text.decimalValue whole
        let signed := if negative then -value else value
        if inRange signed then some (.integer signed, rest) else none
      else
        let size := Decimal.toFloat (Text.decimalValue (whole ++ fraction)) (exponent - fraction.length)
        if size.isInf && !negative then none
        else some (.float (if negative then -size else size), after)

/-! ## Dates -/

def readField (size low high : Nat) (cs : List Char) : Option (Nat × List Char) :=
  let digits := cs.take size
  let value := Text.decimalValue digits
  if digits.length = size && digits.all Char.isDigit && low ≤ value && value ≤ high then
    some (value, cs.drop size)
  else none

def expect (c : Char) : List Char → Option (List Char)
  | d :: rest => if c == d then some rest else none
  | [] => none

def pad (size n : Nat) : String :=
  let digits := Nat.toDigits 10 n
  .ofList (List.replicate (size - digits.length) '0' ++ digits)

def daysIn (year month : Nat) : Nat :=
  let leap := year % 4 == 0 && (year % 100 != 0 || year % 400 == 0)
  if month == 2 then if leap then 29 else 28
  else if month == 4 || month == 6 || month == 9 || month == 11 then 30
  else 31

def readDay (cs : List Char) : Option (String × List Char) := do
  let (year, cs) ← readField 4 0 9999 cs
  let (month, cs) ← readField 2 1 12 (← expect '-' cs)
  let (day, cs) ← readField 2 1 31 (← expect '-' cs)
  if daysIn year month < day then none
  else return (pad 4 year ++ "-" ++ pad 2 month ++ "-" ++ pad 2 day, cs)

def readSecondFraction (cs : List Char) : Option (String × List Char) :=
  match cs with
  | '.' :: rest =>
    let digits := rest.takeWhile Char.isDigit
    let kept := ((digits.take 9).reverse.dropWhile (· == '0')).reverse
    if digits.isEmpty then none
    else some (if kept.isEmpty then "" else "." ++ .ofList kept, rest.dropWhile Char.isDigit)
  | _ => some ("", cs)

def readTime (cs : List Char) : Option (String × List Char) := do
  let (hour, cs) ← readField 2 0 23 cs
  let (minute, cs) ← readField 2 0 59 (← expect ':' cs)
  let (second, cs) ← readField 2 0 60 (← expect ':' cs)
  let (fraction, cs) ← readSecondFraction cs
  return (pad 2 hour ++ ":" ++ pad 2 minute ++ ":" ++ pad 2 second ++ fraction, cs)

def readOffset (cs : List Char) : Option (String × List Char) :=
  match cs with
  | 'Z' :: rest => some ("Z", rest)
  | 'z' :: rest => some ("Z", rest)
  | c :: rest =>
    if c == '+' || c == '-' then do
      let (hour, rest) ← readField 2 0 23 rest
      let (minute, rest) ← readField 2 0 59 (← expect ':' rest)
      let sign := if c == '-' && hour + minute != 0 then "-" else "+"
      return (sign ++ pad 2 hour ++ ":" ++ pad 2 minute, rest)
    else some ("", cs)
  | [] => some ("", [])

def readTimeOfDay? (cs : List Char) : Option (String × List Char) :=
  match cs with
  | c :: rest =>
    if c == 'T' || c == 't' || c == ' ' then do
      let (time, rest) ← readTime rest
      let (offset, rest) ← readOffset rest
      return ("T" ++ time ++ offset, rest)
    else none
  | [] => none

def readDate? (cs : List Char) : Option (Toml × List Char) :=
  match readDay cs with
  | some (day, rest) =>
    match readTimeOfDay? rest with
    | some (time, after) => some (.date (day ++ time), after)
    | none => some (.date day, rest)
  | none => (readTime cs).map fun (time, rest) => (.date time, rest)

def readScalar (cs : List Char) : Option (Toml × List Char) :=
  if startsWith "true" cs then some (.bool true, cs.drop 4)
  else if startsWith "false" cs then some (.bool false, cs.drop 5)
  else if startsWith "0x" cs then readRadix 16 (cs.drop 2)
  else if startsWith "0o" cs then readRadix 8 (cs.drop 2)
  else if startsWith "0b" cs then readRadix 2 (cs.drop 2)
  else
    match readDate? cs with
    | some found => some found
    | none => readDecimal cs

end SheetLint.Toml
