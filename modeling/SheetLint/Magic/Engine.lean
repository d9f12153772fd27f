import SheetLint.Color.Parse
import SheetLint.Magic.ColorHint
import SheetLint.Magic.Word
import SheetLint.Pattern.Read

/-!
What matchers rely on others for: expressions that find words, colors and patterns in a text, and the
reading of colors.
-/
namespace SheetLint

/-- `buildsWord` tells whether there is an expression for a key at all, `hintsColor` whether a text may hold
a color. -/
structure Engine where
  buildsWord : (key : String) → Bool
  findsWord : (key text : String) → Bool
  replaceWord : (key replacement text : String) → String
  hintsColor : (text : List Char) → Bool
  color? : (text : String) → Option Rgba
  pattern? : (text : String) → Option Pattern
  matchesPattern : (pattern : Pattern) → (text : String) → Bool

def Engine.own : Engine where
  -- the characters of a key stand for themselves, so that only the size of its expression could be refused
  buildsWord _ := true
  findsWord := Word.occurs
  replaceWord := Word.replaceAll
  hintsColor := ColorHint.occurs
  color? := Rgba.parse?
  pattern? := Pattern.read?
  matchesPattern := Pattern.isMatch

end SheetLint
