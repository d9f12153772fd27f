import SheetLint.Text.Basic

/-!
The lexemes of a value. They follow each other without gap, so that their texts are the value. What a
quote or the opening of a comment starts and nothing ends runs to the end of the value.
-/
namespace SheetLint
open Text (byteSize isAsciiBlank)

inductive LexemeKind where
  | space
  | divider
  | opening
  | closing
  | string (closed : Bool)
  | comment (closed : Bool)
  | word
  deriving DecidableEq, Repr

structure Lexeme where
  kind : LexemeKind
  text : List Char
  start : Nat
  deriving DecidableEq, Repr

namespace Lexeme

def stop (lexeme : Lexeme) : Nat := lexeme.start + byteSize lexeme.text

def isDividerChar (c : Char) : Bool := c == ',' || c == '/' || c == ':'

def isQuote (c : Char) : Bool := c == '"' || c == '\''

def isWordChar (c : Char) : Bool :=
  !(isAsciiBlank c || isDividerChar c || isQuote c || c == '(' || c == ')')

/-- After an opening quote: the string up to and including its closing quote. A backslash takes along
the character after it, which must not be a line feed. -/
def closeString (quote : Char) : List Char → Option (List Char × List Char)
  | [] => none
  | '\\' :: c :: cs =>
    if c == '\n' then none else (closeString quote cs).map fun p => ('\\' :: c :: p.1, p.2)
  | c :: cs =>
    if c == quote then some ([c], cs) else (closeString quote cs).map fun p => (c :: p.1, p.2)

theorem closeStringWhole {quote : Char} {cs : List Char} {p : List Char × List Char}
    (h : closeString quote cs = some p) : cs = p.1 ++ p.2 := by
  fun_induction closeString quote cs generalizing p with
  | case1 => simp at h
  | case2 => simp at h
  | case3 c cs _ ih =>
    obtain ⟨q, hq, rfl⟩ := Option.map_eq_some_iff.1 h
    simp [← ih hq]
  | case4 c cs _ _ => cases h; rfl
  | case5 c cs _ _ ih =>
    obtain ⟨q, hq, rfl⟩ := Option.map_eq_some_iff.1 h
    simp [← ih hq]

def first (offset : Nat) (c : Char) (cs : List Char) : Lexeme × List Char :=
  -- a comment runs to the end of the value, also where it is closed before
  if c == '/' && cs.head? == some '*' then (⟨.comment false, c :: cs, offset⟩, [])
  else if isAsciiBlank c then
    (⟨.space, c :: cs.takeWhile isAsciiBlank, offset⟩, cs.dropWhile isAsciiBlank)
  else if isDividerChar c then (⟨.divider, [c], offset⟩, cs)
  else if c == '(' then (⟨.opening, [c], offset⟩, cs)
  else if c == ')' then (⟨.closing, [c], offset⟩, cs)
  else if isQuote c then
    match closeString c cs with
    | some (inner, rest) => (⟨.string true, c :: inner, offset⟩, rest)
    | none => (⟨.string false, c :: cs, offset⟩, [])
  else (⟨.word, c :: cs.takeWhile isWordChar, offset⟩, cs.dropWhile isWordChar)

theorem firstWhole (offset : Nat) (c : Char) (cs : List Char) :
    (first offset c cs).1.text ++ (first offset c cs).2 = c :: cs := by
  unfold first
  split
  · simp
  split
  · simp [List.takeWhile_append_dropWhile]
  split
  · rfl
  split
  · rfl
  split
  · rfl
  split
  · split
    next inner rest hc => simp [← closeStringWhole hc]
    · simp
  · simp [List.takeWhile_append_dropWhile]

theorem firstVisible (offset : Nat) (c : Char) (cs : List Char) :
    (first offset c cs).1.text ≠ [] := by
  unfold first
  split
  · simp
  split
  · simp
  split
  · simp
  split
  · simp
  split
  · simp
  split
  · split <;> simp
  · simp

theorem firstLength (offset : Nat) (c : Char) (cs : List Char) :
    (first offset c cs).2.length ≤ cs.length := by
  have whole := congrArg List.length (firstWhole offset c cs)
  have some := List.length_pos_iff.2 (firstVisible offset c cs)
  simp at whole
  omega

def lex (offset : Nat) (cs : List Char) : List Lexeme :=
  match cs with
  | [] => []
  | c :: rest =>
    (first offset c rest).1 :: lex (first offset c rest).1.stop (first offset c rest).2
termination_by cs.length
decreasing_by
  have := firstLength offset c rest
  simp; omega

theorem lexTexts (offset : Nat) (cs : List Char) : (lex offset cs).flatMap text = cs := by
  fun_induction lex offset cs with
  | case1 => rfl
  | case2 offset c rest ih => rw [List.flatMap_cons, ih, firstWhole]

end Lexeme
end SheetLint
