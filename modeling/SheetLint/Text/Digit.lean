/-!
Numbers in digits.
-/
namespace SheetLint.Text

def digitValue (c : Char) : Nat := c.toNat - '0'.toNat

def decimalValue (digits : List Char) : Nat := digits.foldl (fun n c => n * 10 + digitValue c) 0

def hexDigit? (c : Char) : Option Nat :=
  if '0' ≤ c ∧ c ≤ '9' then some (c.toNat - '0'.toNat)
  else if 'a' ≤ c ∧ c ≤ 'f' then some (c.toNat - 'a'.toNat + 10)
  else if 'A' ≤ c ∧ c ≤ 'F' then some (c.toNat - 'A'.toNat + 10)
  else none

def hexDigits? (cs : List Char) : Option (List Nat) := cs.mapM hexDigit?

def hexValue? (cs : List Char) : Option Nat :=
  (hexDigits? cs).map fun digits => digits.foldl (fun n d => n * 16 + d) 0

def isCharCode (code : Nat) : Bool := code < 0xd800 || (0xdfff < code && code < 0x110000)

end SheetLint.Text
