import Mathlib.Data.List.TakeWhile
import SheetLint.Text.Basic

/-! Texts without the blanks around them, and texts taken apart at a separator. -/
namespace SheetLint.Text

@[simp] theorem trimmedAppend (text rest : List Char) :
    trimEnd text ++ (trailing text ++ rest) = text ++ rest := by
  rw [← List.append_assoc, trimEndTrailing]

theorem leadingBlank (text : List Char) : ∀ c ∈ leading text, isBlank c = true :=
  fun _ inside => List.mem_takeWhile_imp inside

theorem trailingBlank (text : List Char) : ∀ c ∈ trailing text, isBlank c = true :=
  fun _ inside => List.mem_takeWhile_imp (List.mem_reverse.mp inside)

theorem trimStartHead (text : List Char) : ∀ c ∈ (trimStart text).head?, isBlank c = false := by
  intro c first
  have visible := List.head?_dropWhile_not isBlank text
  rw [Option.mem_def] at first
  rw [← trimStart, first] at visible
  exact visible

theorem trimEndLast (text : List Char) : ∀ c ∈ (trimEnd text).getLast?, isBlank c = false := by
  intro c last
  have visible := List.head?_dropWhile_not isBlank text.reverse
  rw [trimEnd, List.getLast?_reverse, Option.mem_def] at last
  rw [last] at visible
  exact visible

theorem trimEndBlanks {text blanks : List Char} (last : ∀ c ∈ text.getLast?, isBlank c = false)
    (blank : ∀ c ∈ blanks, isBlank c = true) : trimEnd (text ++ blanks) = text := by
  have behind : ∀ c ∈ blanks.reverse, isBlank c = true := fun c inside =>
    blank c (List.mem_reverse.mp inside)
  have visible : text.reverse.dropWhile isBlank = text.reverse := by
    cases reversed : text.reverse with
    | nil => rfl
    | cons c cs =>
      have shown := last c (by rw [← List.head?_reverse, reversed]; rfl)
      rw [List.dropWhile_cons, shown]
      rfl
  rw [trimEnd, List.reverse_append, List.dropWhile_append_of_pos behind, visible, List.reverse_reverse]

theorem trailingBlanks {text blanks : List Char} (last : ∀ c ∈ text.getLast?, isBlank c = false)
    (blank : ∀ c ∈ blanks, isBlank c = true) : trailing (text ++ blanks) = blanks := by
  have whole := trimEndTrailing (text ++ blanks)
  rw [trimEndBlanks last blank] at whole
  exact List.append_cancel_left whole

theorem trimEndVisible {c : Char} (visible : isBlank c = false) (front rest : List Char) :
    trimEnd (front ++ c :: rest) = front ++ c :: trimEnd rest := by
  have reversed : (front ++ c :: rest).reverse = rest.reverse ++ c :: front.reverse := by simp
  have shown : (c :: front.reverse).dropWhile isBlank = c :: front.reverse := by
    rw [List.dropWhile_cons, visible]
    rfl
  rw [trimEnd, reversed, List.dropWhile_append, shown, trimEnd]
  cases List.dropWhile isBlank rest.reverse <;> simp

theorem trimStartBlanks {blanks text : List Char} (blank : ∀ c ∈ blanks, isBlank c = true) :
    trimStart (blanks ++ text) = trimStart text :=
  List.dropWhile_append_of_pos blank

theorem trimStartVisible {text : List Char} (first : ∀ c ∈ text.head?, isBlank c = false) :
    trimStart text = text := by
  cases text with
  | nil => rfl
  | cons c cs =>
    rw [trimStart, List.dropWhile_cons, first c rfl]
    rfl

theorem memTrim {text : List Char} {c : Char} (inside : c ∈ text) (visible : isBlank c = false) :
    c ∈ trim text := by
  have shown {blanks : List Char} (blank : ∀ d ∈ blanks, isBlank d = true) : c ∉ blanks := fun mem =>
    Bool.false_ne_true (visible.symm.trans (blank c mem))
  rw [← leadingTrimStart text, List.mem_append, ← trimEndTrailing (trimStart text),
    List.mem_append] at inside
  rcases inside with front | middle | behind
  · exact absurd front (shown (leadingBlank text))
  · exact middle
  · exact absurd behind (shown (trailingBlank _))

theorem trimMem {text : List Char} {c : Char} (inside : c ∈ trim text) : c ∈ text := by
  rw [← leadingTrimStart text, ← trimEndTrailing (trimStart text)]
  exact List.mem_append_right _ (List.mem_append_left _ inside)

/-! ## What a text ends in -/

def lastVisible? (text : List Char) : Option Char := text.reverse.find? fun c => !isBlank c

theorem lastVisibleAppend (text rest : List Char) :
    lastVisible? (text ++ rest) = (lastVisible? rest).or (lastVisible? text) := by
  rw [lastVisible?, List.reverse_append, List.find?_append]
  rfl

theorem lastVisibleBlanks {text : List Char} (blank : ∀ c ∈ text, isBlank c = true) :
    lastVisible? text = none := by
  simpa [lastVisible?] using blank

theorem lastVisibleAlone {c : Char} (visible : isBlank c = false) : lastVisible? [c] = some c := by
  simp [lastVisible?, visible]

theorem lastVisibleStart (text : List Char) : lastVisible? (trimStart text) = lastVisible? text := by
  conv => rhs; rw [← leadingTrimStart text]
  rw [lastVisibleAppend, lastVisibleBlanks (leadingBlank text), Option.or_none]

theorem trimLast (text : List Char) : (trim text).getLast? = lastVisible? text := by
  rw [← lastVisibleStart text, trim, trimEnd, List.getLast?_reverse, lastVisible?,
    List.find?_not_eq_head?_dropWhile]

theorem trimStartAppend {c : Char} (visible : isBlank c = false) (text : List Char) :
    trimStart (text ++ [c]) = trimStart text ++ [c] := by
  conv => lhs; rw [← leadingTrimStart text, List.append_assoc]
  rw [trimStartBlanks (leadingBlank text)]
  refine trimStartVisible fun d first => ?_
  rw [Option.mem_def, List.head?_append, Option.or_eq_some_iff] at first
  rcases first with own | ⟨-, last⟩
  · exact trimStartHead text d own
  · cases last
    exact visible

/-! ## Separators -/

theorem splitFirstAgain {sep : Char} {cs : List Char} {p : List Char × List Char}
    (cut : splitFirst? sep cs = some p) (more : List Char) :
    splitFirst? sep (p.1 ++ sep :: more) = some (p.1, more) := by
  fun_induction splitFirst? sep cs generalizing p with
  | case1 => cases cut
  | case2 c cs found =>
    cases cut
    rw [List.nil_append, splitFirst?, if_pos (beq_self_eq_true sep)]
  | case3 c cs other ih =>
    obtain ⟨q, inner, rfl⟩ := Option.map_eq_some_iff.mp cut
    dsimp only
    rw [List.cons_append, splitFirst?, if_neg other, ih inner]
    rfl

theorem splitFirstFree {sep : Char} {front : List Char} (free : ∀ c ∈ front, c ≠ sep) (rest : List Char) :
    splitFirst? sep (front ++ sep :: rest) = some (front, rest) := by
  induction front with
  | nil => simp [splitFirst?]
  | cons c cs ih =>
    obtain ⟨first, others⟩ := List.forall_mem_cons.mp free
    rw [List.cons_append, splitFirst?, if_neg (by simpa using first), ih others]
    rfl

theorem splitOnCons (sep : Char) (cs : List Char) : ∃ part parts, splitOn sep cs = part :: parts := by
  cases cs with
  | nil => exact ⟨[], [], rfl⟩
  | cons c cs =>
    rw [splitOn]
    split
    · exact ⟨_, _, rfl⟩
    · split <;> exact ⟨_, _, rfl⟩

theorem joinSplit (sep : Char) (cs : List Char) : List.intercalate [sep] (splitOn sep cs) = cs := by
  induction cs with
  | nil => rfl
  | cons c cs ih =>
    obtain ⟨part, parts, split⟩ := splitOnCons sep cs
    rw [split] at ih
    rw [splitOn, split]
    by_cases same : c = sep
    · subst same
      rw [if_pos (beq_self_eq_true c), List.intercalate_cons_cons, ih]
      rfl
    · rw [if_neg (by simpa using same)]
      dsimp only
      cases parts with
      | nil => rw [List.intercalate_singleton] at ih ⊢; rw [ih]
      | cons next rest =>
        rw [List.intercalate_cons_cons] at ih ⊢
        rw [← ih]
        rfl

theorem splitOnFree {sep : Char} {cs : List Char} : ∀ part ∈ splitOn sep cs, sep ∉ part := by
  induction cs with
  | nil => simp [splitOn]
  | cons c cs ih =>
    obtain ⟨part, parts, split⟩ := splitOnCons sep cs
    rw [split] at ih
    obtain ⟨first, others⟩ := List.forall_mem_cons.mp ih
    rw [splitOn, split]
    by_cases same : c = sep
    · subst same
      simpa [first] using others
    · rw [if_neg (by simpa using same)]
      simp only [List.mem_cons, forall_eq_or_imp, not_or]
      exact ⟨⟨Ne.symm same, first⟩, others⟩

theorem splitOnWhole {sep : Char} {cs : List Char} (free : sep ∉ cs) : splitOn sep cs = [cs] := by
  induction cs with
  | nil => rfl
  | cons c cs ih =>
    rw [List.mem_cons, not_or] at free
    rw [splitOn, if_neg (by simpa using Ne.symm free.1), ih free.2]

theorem splitOnAppend {sep : Char} {part : List Char} (free : sep ∉ part) (rest : List Char) :
    splitOn sep (part ++ sep :: rest) = part :: splitOn sep rest := by
  induction part with
  | nil => rw [List.nil_append, splitOn, if_pos (beq_self_eq_true sep)]
  | cons c cs ih =>
    rw [List.mem_cons, not_or] at free
    rw [List.cons_append, splitOn, if_neg (by simpa using Ne.symm free.1), ih free.2]

theorem splitJoin {sep : Char} {parts : List (List Char)} (some : parts ≠ [])
    (free : ∀ part ∈ parts, sep ∉ part) : splitOn sep (List.intercalate [sep] parts) = parts := by
  induction parts with
  | nil => exact absurd rfl some
  | cons part rest ih =>
    obtain ⟨first, others⟩ := List.forall_mem_cons.mp free
    cases rest with
    | nil => rw [List.intercalate_singleton, splitOnWhole first]
    | cons next rest =>
      rw [List.intercalate_cons_cons, List.append_assoc, List.singleton_append, splitOnAppend first,
        ih (by simp) others]

theorem joinLast {sep : Char} (visible : isBlank sep = false) (front : List (List Char)) (last : List Char) :
    ∃ before, List.intercalate [sep] (front ++ [last]) = before ++ last ∧
      ∀ c ∈ lastVisible? before, c = sep := by
  induction front with
  | nil => exact ⟨[], by simp, by simp [lastVisible?]⟩
  | cons part front ih =>
    obtain ⟨before, whole, ends⟩ := ih
    refine ⟨part ++ [sep] ++ before, ?_, ?_⟩
    · obtain ⟨next, rest, more⟩ := List.exists_cons_of_ne_nil (List.concat_ne_nil last front)
      rw [List.cons_append, more, List.intercalate_cons_cons, ← more, whole]
      simp
    · intro c inside
      rw [lastVisibleAppend, lastVisibleAppend, lastVisibleAlone visible, Option.some_or] at inside
      cases seen : lastVisible? before with
      | none =>
        rw [seen, Option.none_or] at inside
        exact (Option.some.inj inside).symm
      | some d =>
        rw [seen, Option.some_or] at inside
        exact ends c (seen.trans inside)

end SheetLint.Text
