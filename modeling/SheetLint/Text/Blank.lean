import SheetLint.Text.Ranges

/-!
White space. Layout between statements is made of the five ASCII blanks only, while the text of a
statement is trimmed of every character with the property White_Space.
-/
namespace SheetLint.Text

def isAsciiBlank (c : Char) : Bool :=
  c == ' ' || c == '\t' || c == '\n' || c == '\x0c' || c == '\r'

def blanks : Ranges := [
  (0x9, 0xd), (0x20, 0x20), (0x85, 0x85), (0xa0, 0xa0), (0x1680, 0x1680), (0x2000, 0x200a),
  (0x2028, 0x2029), (0x202f, 0x202f), (0x205f, 0x205f), (0x3000, 0x3000)]

def isBlank (c : Char) : Bool := blanks.has c

theorem blankOfAscii {c : Char} (h : isAsciiBlank c = true) : isBlank c = true := by
  simp only [isAsciiBlank, Bool.or_eq_true, beq_iff_eq] at h
  rcases h with (((rfl | rfl) | rfl) | rfl) | rfl <;> rfl

def leading (cs : List Char) : List Char := cs.takeWhile isBlank

def trimStart (cs : List Char) : List Char := cs.dropWhile isBlank

def trailing (cs : List Char) : List Char := (cs.reverse.takeWhile isBlank).reverse

def trimEnd (cs : List Char) : List Char := (cs.reverse.dropWhile isBlank).reverse

def trim (cs : List Char) : List Char := trimEnd (trimStart cs)

@[simp] theorem leadingTrimStart (cs : List Char) : leading cs ++ trimStart cs = cs :=
  List.takeWhile_append_dropWhile

@[simp] theorem trimEndTrailing (cs : List Char) : trimEnd cs ++ trailing cs = cs := by
  rw [trimEnd, trailing, ← List.reverse_append, List.takeWhile_append_dropWhile, List.reverse_reverse]

theorem trimStartLength (cs : List Char) : (trimStart cs).length ≤ cs.length := by
  have whole := congrArg List.length (leadingTrimStart cs)
  rw [List.length_append] at whole
  omega

theorem trailingLength (cs : List Char) : (trailing cs).length ≤ cs.length := by
  have whole := congrArg List.length (trimEndTrailing cs)
  rw [List.length_append] at whole
  omega

end SheetLint.Text
