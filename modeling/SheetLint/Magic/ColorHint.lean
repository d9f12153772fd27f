import SheetLint.Text.Alphanumeric
import SheetLint.Text.CaseFold
import SheetLint.Text.Digit

/-!
A quick look whether a text may hold a color: some hexadecimal digits behind a `#`, or something like a
call of `rgb` or `hsl`.
-/
namespace SheetLint.ColorHint

def isHexDigit (c : Char) : Bool := (Text.hexDigit? c).isSome

def hexAt : List Char → Bool
  | '#' :: rest =>
    let count := (rest.takeWhile isHexDigit).length
    3 ≤ count && count ≤ 8 && !(rest.dropWhile isHexDigit).head?.any Text.isWordChar
  | _ => false

def closedCall : List Char → Bool
  | '(' :: rest => (rest.takeWhile (· != '\n')).contains ')'
  | _ => false

def callAt : List Char → List Char → Bool
  | [], text =>
    closedCall text ||
      (match text with
        | c :: rest => Text.sameLetter 'a' c && closedCall rest
        | [] => false)
  | _ :: _, [] => false
  | a :: name, b :: text => Text.sameLetter a b && callAt name text

def colorAt (text : List Char) : Bool :=
  hexAt text || callAt ['r', 'g', 'b'] text || callAt ['h', 's', 'l'] text

def occurs : List Char → Bool
  | [] => false
  | c :: rest => colorAt (c :: rest) || occurs rest

end SheetLint.ColorHint
