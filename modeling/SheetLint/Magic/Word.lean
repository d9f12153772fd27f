import SheetLint.Text.CaseFold

/-!
Occurrences of a word in a text. Letters are compared without regard to case. Where the word begins or
ends in a word character, an occurrence must not continue a longer word on that side; word characters
are those of ASCII.
-/
namespace SheetLint.Word

def isWordChar (c : Char) : Bool := c.isAlphanum || c == '_'

def isWordChar? (c : Option Char) : Bool := c.any isWordChar

def isBoundary (left right : Option Char) : Bool := isWordChar? left != isWordChar? right

def beginsWith : List Char → List Char → Bool
  | [], _ => true
  | _ :: _, [] => false
  | a :: word, b :: text => Text.sameLetter a b && beginsWith word text

def occursAt (word : List Char) (before : Option Char) (text : List Char) : Bool :=
  beginsWith word text &&
    (!isWordChar? word.head? || isBoundary before text.head?) &&
    (!isWordChar? word.getLast? ||
      isBoundary (text.take word.length).getLast? (text.drop word.length).head?)

def occursFrom (word : List Char) (before : Option Char) : List Char → Bool
  | [] => occursAt word before []
  | c :: rest => occursAt word before (c :: rest) || occursFrom word (some c) rest

def occurs (word text : String) : Bool := occursFrom word.toList none text.toList

/-- Replaces the occurrences from left to right; `skip` characters still belong to the last one. An empty
word occurs before every character and at the end. -/
def replaceFrom (word replacement : List Char) (skip : Nat) (before : Option Char) :
    List Char → List Char
  | [] => if skip = 0 && occursAt word before [] then replacement else []
  | c :: rest =>
    if 0 < skip then replaceFrom word replacement (skip - 1) (some c) rest
    else if occursAt word before (c :: rest) then
      if word.isEmpty then replacement ++ c :: replaceFrom word replacement 0 (some c) rest
      else replacement ++ replaceFrom word replacement (word.length - 1) (some c) rest
    else c :: replaceFrom word replacement 0 (some c) rest

def replaceAll (word replacement text : String) : String :=
  .ofList (replaceFrom word.toList replacement.toList 0 none text.toList)

end SheetLint.Word
