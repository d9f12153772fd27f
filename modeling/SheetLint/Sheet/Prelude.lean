import SheetLint.Sheet.Fault

/-!
Finding the end of a statement. The text before the `{`, `;` or `}` that ends a statement is its
prelude; strings, comments, interpolations, escapes and parentheses hide these characters. Every
scanner returns what it has passed over and what is left, and together they are its input.
-/
namespace SheetLint.Scan
open Text (byteSize)

def passed (chunk : List Char) (p : List Char × List Char) : List Char × List Char :=
  (chunk ++ p.1, p.2)

def closeQuote (quote : Char) : List Char → Option (List Char × List Char)
  | [] => none
  | '\\' :: c :: cs => (closeQuote quote cs).map (passed ['\\', c])
  | c :: cs => if c == quote then some ([c], cs) else (closeQuote quote cs).map (passed [c])

def closeComment : List Char → Option (List Char × List Char)
  | [] => none
  | '*' :: '/' :: cs => some ([], cs)
  | c :: cs => (closeComment cs).map (passed [c])

def closeBraces (depth : Nat) : List Char → List Char × List Char
  | [] => ([], [])
  | c :: cs =>
    if c == '\x7b' then passed [c] (closeBraces (depth + 1) cs)
    else if c == '\x7d' then
      if depth ≤ 1 then ([c], cs) else passed [c] (closeBraces (depth - 1) cs)
    else passed [c] (closeBraces depth cs)

theorem closeQuoteWhole {quote : Char} {cs : List Char} {p : List Char × List Char}
    (h : closeQuote quote cs = some p) : cs = p.1 ++ p.2 := by
  fun_induction closeQuote quote cs generalizing p with
  | case1 => simp at h
  | case2 c cs ih =>
    obtain ⟨q, hq, rfl⟩ := Option.map_eq_some_iff.1 h
    simp [passed, ih hq]
  | case3 c cs _ _ => cases h; rfl
  | case4 c cs _ _ ih =>
    obtain ⟨q, hq, rfl⟩ := Option.map_eq_some_iff.1 h
    simp [passed, ih hq]

theorem closeCommentWhole {cs : List Char} {p : List Char × List Char}
    (h : closeComment cs = some p) : cs = p.1 ++ '*' :: '/' :: p.2 := by
  fun_induction closeComment cs generalizing p with
  | case1 => simp at h
  | case2 cs => cases h; rfl
  | case3 c cs _ ih =>
    obtain ⟨q, hq, rfl⟩ := Option.map_eq_some_iff.1 h
    simp [passed, ih hq]

theorem closeBracesWhole (depth : Nat) (cs : List Char) :
    (closeBraces depth cs).1 ++ (closeBraces depth cs).2 = cs := by
  fun_induction closeBraces depth cs with
  | case1 => rfl
  | case2 _ _ _ _ ih => simp [passed, ih]
  | case3 => rfl
  | case4 _ _ _ _ _ _ ih => simp [passed, ih]
  | case5 _ _ _ _ _ ih => simp [passed, ih]

theorem closeQuoteLength {quote : Char} {cs : List Char} {p : List Char × List Char}
    (h : closeQuote quote cs = some p) : p.2.length ≤ cs.length := by
  rw [closeQuoteWhole h, List.length_append]; omega

theorem closeCommentLength {cs : List Char} {p : List Char × List Char}
    (h : closeComment cs = some p) : p.2.length ≤ cs.length := by
  rw [closeCommentWhole h]; simp; omega

theorem closeBracesLength (depth : Nat) (cs : List Char) :
    (closeBraces depth cs).2.length ≤ cs.length := by
  have whole := congrArg List.length (closeBracesWhole depth cs)
  rw [List.length_append] at whole
  omega

def endsStatement (c : Char) : Bool := c == '\x7b' || c == ';' || c == '\x7d'

def depthAfter (depth : Nat) (c : Char) : Nat :=
  if c == '(' then depth + 1 else if c == ')' then depth - 1 else depth

def comment (body : List Char) : List Char := '/' :: '*' :: (body ++ ['*', '/'])

def interpolation (rest : List Char) : List Char := '#' :: '\x7b' :: (closeBraces 1 rest).1

def prelude (offset depth : Nat) (cs : List Char) : Except Fault (List Char × List Char) :=
  match cs with
  | [] => .ok ([], [])
  | '/' :: '*' :: rest =>
    match _h : closeComment rest with
    | none => .error ⟨.unclosedComment, offset⟩
    | some (body, after) =>
      (prelude (offset + byteSize (comment body)) depth after).map (passed (comment body))
  | '#' :: '\x7b' :: rest =>
    (prelude (offset + byteSize (interpolation rest)) depth (closeBraces 1 rest).2).map
      (passed (interpolation rest))
  | '\\' :: c :: rest =>
    (prelude (offset + byteSize ['\\', c]) depth rest).map (passed ['\\', c])
  | c :: rest =>
    if c == '"' || c == '\'' then
      match _h : closeQuote c rest with
      | none => .error ⟨.unclosedString, offset⟩
      | some (inner, after) =>
        (prelude (offset + byteSize (c :: inner)) depth after).map (passed (c :: inner))
    else if depth == 0 && endsStatement c then .ok ([], c :: rest)
    else (prelude (offset + c.utf8Size) (depthAfter depth c) rest).map (passed [c])
termination_by cs.length
decreasing_by
  · have := closeCommentLength _h; simp at this ⊢; omega
  · have := closeBracesLength 1 rest; simp; omega
  · simp only [List.length_cons]; omega
  · have := closeQuoteLength _h; simp at this ⊢; omega
  · simp

theorem passedWhole {r : Except Fault (List Char × List Char)} {chunk : List Char}
    {p : List Char × List Char} (h : r.map (passed chunk) = .ok p) :
    ∃ q, r = .ok q ∧ p = passed chunk q := by
  cases r with
  | error f => cases h
  | ok q => cases h; exact ⟨q, rfl, rfl⟩

theorem preludeWhole {offset depth : Nat} {cs : List Char} {p : List Char × List Char}
    (h : prelude offset depth cs = .ok p) :
    cs = p.1 ++ p.2 ∧ ∀ c ∈ p.2.head?, endsStatement c = true := by
  fun_induction prelude offset depth cs generalizing p with
  | case1 => cases h; simp
  | case2 => cases h
  | case3 offset depth rest body after hc ih =>
    obtain ⟨q, hq, rfl⟩ := passedWhole h
    obtain ⟨whole, ending⟩ := ih hq
    refine ⟨?_, ending⟩
    simp [passed, comment, closeCommentWhole hc, whole]
  | case4 offset depth rest ih =>
    obtain ⟨q, hq, rfl⟩ := passedWhole h
    obtain ⟨whole, ending⟩ := ih hq
    refine ⟨?_, ending⟩
    simp [passed, interpolation, ← whole, closeBracesWhole]
  | case5 offset depth c rest ih =>
    obtain ⟨q, hq, rfl⟩ := passedWhole h
    obtain ⟨whole, ending⟩ := ih hq
    exact ⟨by simp [passed, whole], ending⟩
  | case6 => cases h
  | case7 offset depth c rest _ _ _ _ inner after hc ih =>
    obtain ⟨q, hq, rfl⟩ := passedWhole h
    obtain ⟨whole, ending⟩ := ih hq
    refine ⟨?_, ending⟩
    simp [passed, closeQuoteWhole hc, whole]
  | case8 offset depth c rest _ _ _ _ hend =>
    cases h
    simp_all
  | case9 offset depth c rest _ _ _ _ _ ih =>
    obtain ⟨q, hq, rfl⟩ := passedWhole h
    obtain ⟨whole, ending⟩ := ih hq
    exact ⟨by simp [passed, whole], ending⟩

end SheetLint.Scan
