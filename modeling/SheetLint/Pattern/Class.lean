import SheetLint.Text.Alphanumeric
import SheetLint.Text.Blank
import SheetLint.Text.CaseFold

/-!
Classes of characters as patterns write them. A pattern can name the properties of `CharProperty`; one
that names another property is not read.
-/
namespace SheetLint

inductive CharProperty where
  | any
  | ascii
  | letter
  | mark
  | number
  | decimalDigit
  | letterNumber
  | otherNumber
  | alphabetic
  | blank
  | word
  deriving DecidableEq, Repr

def CharProperty.has (c : Char) : CharProperty → Bool
  | any => true
  | ascii => c.toNat < 0x80
  | letter => Text.isLetter c
  | mark => Text.isMark c
  | number => Text.isNumber c
  | decimalDigit => Text.isDecimalDigit c
  | letterNumber => Text.letterNumbers.has c
  | otherNumber => Text.otherNumbers.has c
  | alphabetic => Text.isAlphabetic c
  | blank => Text.isBlank c
  | word => Text.isWordChar c

/-- A class holds a character by range or property, or is made from other classes. A folded class holds
a character if it holds one that differs from it at most by case. -/
inductive CharClass where
  | empty
  | range (low high : Nat)
  | property (name : CharProperty)
  | not (c : CharClass)
  | union (a b : CharClass)
  | inter (a b : CharClass)
  | diff (a b : CharClass)
  | symmDiff (a b : CharClass)
  | folded (c : CharClass)
  | asciiFolded (c : CharClass)
  deriving DecidableEq, Repr

namespace CharClass

def has (x : Char) : CharClass → Bool
  | empty => false
  | range low high => low ≤ x.toNat && x.toNat ≤ high
  | property name => name.has x
  | not c => !has x c
  | union a b => has x a || has x b
  | inter a b => has x a && has x b
  | diff a b => has x a && !has x b
  | symmDiff a b => has x a != has x b
  | folded c => (Text.caseVariants x).any fun y => has y c
  | asciiFolded c => has x c || has x.toLower c || has x.toUpper c

def char (c : Char) : CharClass := range c.toNat c.toNat

def ofRanges (ranges : List (Char × Char)) : CharClass :=
  ranges.foldr (fun r c => union (range r.1.toNat r.2.toNat) c) empty

def asciiDigit : CharClass := ofRanges [('0', '9')]

def asciiWord : CharClass := ofRanges [('a', 'z'), ('A', 'Z'), ('0', '9'), ('_', '_')]

def asciiBlank : CharClass := ofRanges [('\t', '\r'), (' ', ' ')]

def ofAsciiName? (name : String) : Option CharClass :=
  match name with
  | "alnum" => some (ofRanges [('0', '9'), ('A', 'Z'), ('a', 'z')])
  | "alpha" => some (ofRanges [('A', 'Z'), ('a', 'z')])
  | "ascii" => some (range 0 0x7f)
  | "blank" => some (ofRanges [('\t', '\t'), (' ', ' ')])
  | "cntrl" => some (union (range 0 0x1f) (range 0x7f 0x7f))
  | "digit" => some asciiDigit
  | "graph" => some (ofRanges [('!', '~')])
  | "lower" => some (ofRanges [('a', 'z')])
  | "print" => some (ofRanges [(' ', '~')])
  | "punct" => some (ofRanges [('!', '/'), (':', '@'), ('[', '\x60'), ('\x7b', '~')])
  | "space" => some asciiBlank
  | "upper" => some (ofRanges [('A', 'Z')])
  | "word" => some asciiWord
  | "xdigit" => some (ofRanges [('0', '9'), ('A', 'F'), ('a', 'f')])
  | _ => none

def ofPropertyName? (name : List Char) : Option CharClass :=
  let plain := (name.filter fun c => c != ' ' && c != '-' && c != '_').map Char.toLower
  match String.ofList plain with
  | "any" => some (property .any)
  | "ascii" => some (property .ascii)
  | "l" | "letter" | "gc=l" | "gc=letter" | "generalcategory=letter" => some (property .letter)
  | "m" | "mark" | "combiningmark" => some (property .mark)
  | "n" | "number" => some (property .number)
  | "nd" | "decimalnumber" | "digit" => some (property .decimalDigit)
  | "nl" | "letternumber" => some (property .letterNumber)
  | "no" | "othernumber" => some (property .otherNumber)
  | "alpha" | "alphabetic" => some (property .alphabetic)
  | "wspace" | "whitespace" | "space" => some (property .blank)
  | _ => none

end CharClass
end SheetLint
