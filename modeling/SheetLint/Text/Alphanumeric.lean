import SheetLint.Text.Letter
import SheetLint.Text.Mark
import SheetLint.Text.Number

/-!
Alphanumeric characters, of which rule names are made, and word characters, between which a pattern
finds its word boundaries.
-/
namespace SheetLint.Text

def alphabeticSymbols : Ranges := [
  (0x24b6, 0x24e9), (0x1f130, 0x1f149), (0x1f150, 0x1f169), (0x1f170, 0x1f189)]

def connectors : Ranges := [
  (0x5f, 0x5f), (0x203f, 0x2040), (0x2054, 0x2054), (0xfe33, 0xfe34), (0xfe4d, 0xfe4f),
  (0xff3f, 0xff3f)]

def isAlphabetic (c : Char) : Bool :=
  isLetter c || letterNumbers.has c || alphabeticSymbols.has c ||
    (isMark c && !nonAlphabeticMarks.has c)

def isAlphanumeric (c : Char) : Bool := isAlphabetic c || isNumber c

def isWordChar (c : Char) : Bool :=
  isAlphabetic c || isMark c || isDecimalDigit c || connectors.has c ||
    c.toNat == 0x200c || c.toNat == 0x200d

end SheetLint.Text
