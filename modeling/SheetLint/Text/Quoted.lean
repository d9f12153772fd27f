import SheetLint.Text.Printable

/-!
Texts as messages quote them: in double quotes, and with an escape for every character that could not
be read off the message.
-/
namespace SheetLint.Text

def codeEscape (c : Char) : List Char :=
  ['\\', 'u', '\x7b'] ++ Nat.toDigits 16 c.toNat ++ ['\x7d']

def escapeChar (c : Char) : List Char :=
  match c with
  | '\x00' => ['\\', '0']
  | '\t' => ['\\', 't']
  | '\r' => ['\\', 'r']
  | '\n' => ['\\', 'n']
  | '\\' => ['\\', '\\']
  | '"' => ['\\', '"']
  | _ => if extendsGrapheme c || !isPrintable c then codeEscape c else [c]

def quoted (text : String) : String :=
  .ofList ('"' :: (text.toList.flatMap escapeChar ++ ['"']))

end SheetLint.Text
