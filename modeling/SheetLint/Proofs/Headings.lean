import SheetLint.Combinator.Rule
import SheetLint.Proofs.Outside
import SheetLint.Proofs.Scanned
import SheetLint.Proofs.Trimming

/-! Headings of rules. A heading is a selector with the blanks behind it, and ends outside of strings,
comments and parentheses. A combinator in front of the branches of a selector is put where it changes
no state of the scanner, and a combinator at its end can be taken away, so a selector that was read
stays a heading under the fix of misplaced combinators. -/
namespace SheetLint
open Text (isBlank trimEnd trailing trimStart leading)
open Scan (State)

structure Heading (selector between : List Char) : Prop where
  blank : ∀ c ∈ between, isBlank c = true
  trimmed : ∀ c ∈ selector.getLast?, isBlank c = false
  ends : ∃ s, (State.start 0).passes selector = some s ∧ s.outside = true
  visible : ∀ c ∈ (selector ++ between).head?, isLayout c = false

/-! ## A combinator in front of branches -/

namespace CombinatorRule
variable {combinator : List Char}

/- What makes a combinator harmless: the scanner passes it as it would a blank. -/
structure Harmless (combinator : List Char) : Prop where
  inert : ∀ c ∈ combinator, State.inert c = true
  visible : ∀ c ∈ combinator.head?, isLayout c = false
  present : combinator ≠ []

theorem prefixBranchPasses (harmless : Harmless combinator) {s : State} (proper : s.quotes)
    (still : s.calm = true) (branch more : List Char) :
    s.passes (prefixBranch combinator branch ++ more) = s.passes (branch ++ more) := by
  unfold prefixBranch
  split
  · rfl
  · next rest =>
    have blanks : ∀ c ∈ leading branch, State.inert c = true := fun c inside =>
      State.blankInert (Text.leadingBlank branch c inside)
    have space : ∀ c ∈ [' '], State.inert c = true := List.forall_mem_singleton.mpr rfl
    conv => rhs; rw [← Text.leadingTrimStart branch]
    rw [List.append_assoc, List.append_assoc, List.append_assoc,
      State.inertPasses blanks proper still, State.inertPasses harmless.inert proper still,
      State.inertPasses blanks proper still, List.cons_append, ← List.singleton_append,
      State.inertPasses space proper still]

theorem commaCalm {s : State} (proper : s.quotes) : (s.step ',').calm = true := by
  obtain ⟨spot, depth⟩ := s
  cases spot with
  | quoted quote =>
    rcases proper with rfl | rfl <;> rfl
  | _ => rfl

theorem prefixPasses (harmless : Harmless combinator) {s : State} (proper : s.quotes)
    (still : s.calm = true) (branches : List (List Char)) :
    s.passes (List.intercalate [','] (branches.map (prefixBranch combinator))) =
      s.passes (List.intercalate [','] branches) := by
  induction branches generalizing s with
  | nil => rfl
  | cons branch rest ih =>
    cases rest with
    | nil =>
      have same := prefixBranchPasses harmless proper still branch []
      simpa using same
    | cons next rest =>
      rw [List.map_cons, List.map_cons, List.intercalate_cons_cons, List.intercalate_cons_cons,
        ← List.map_cons, List.append_assoc, List.append_assoc,
        prefixBranchPasses harmless proper still, State.passesAppend, State.passesAppend]
      cases run : s.passes branch with
      | none => rfl
      | some t =>
        have proper' := State.passesQuotes proper run
        rw [Option.bind_some, Option.bind_some, List.singleton_append, List.singleton_append,
          State.passes, State.passes, ih (State.stepQuotes proper' ',') (commaCalm proper')]

theorem prefixBranchLast (branch : List Char) :
    (prefixBranch combinator branch).getLast? = branch.getLast? := by
  have whole := Text.leadingTrimStart branch
  unfold prefixBranch
  cases rest : trimStart branch with
  | nil => rfl
  | cons c cs =>
    rw [rest] at whole
    dsimp only
    generalize leading branch = blanks at whole
    rw [← whole]
    simp only [List.getLast?_append, List.getLast?_cons, Option.some_or, Option.getD_some]

theorem prefixLast (branches : List (List Char)) :
    (List.intercalate [','] (branches.map (prefixBranch combinator))).getLast? =
      (List.intercalate [','] branches).getLast? := by
  induction branches with
  | nil => rfl
  | cons branch rest ih =>
    cases rest with
    | nil => simpa using prefixBranchLast branch
    | cons next rest =>
      rw [List.map_cons, List.map_cons, List.intercalate_cons_cons, List.intercalate_cons_cons,
        ← List.map_cons, List.append_assoc, List.append_assoc, List.singleton_append,
        List.singleton_append, List.getLast?_append, List.getLast?_append, List.getLast?_cons,
        List.getLast?_cons, ih]
      rfl

theorem prefixBranchHead (harmless : Harmless combinator) (branch : List Char) {more more' : List Char}
    (same : more.head? = more'.head?) (visible : ∀ c ∈ (branch ++ more).head?, isLayout c = false) :
    ∀ c ∈ (prefixBranch combinator branch ++ more').head?, isLayout c = false := by
  unfold prefixBranch
  cases rest : trimStart branch with
  | nil => simpa [List.head?_append, same] using visible
  | cons d ds =>
    dsimp only
    cases blanks : leading branch with
    | nil =>
      obtain ⟨m, ms, rfl⟩ := List.exists_cons_of_ne_nil harmless.present
      exact harmless.visible
    | cons b bs =>
      have whole := Text.leadingTrimStart branch
      rw [blanks] at whole
      rw [← whole] at visible
      exact visible

theorem prefixHead (harmless : Harmless combinator) (branches : List (List Char)) (more : List Char)
    (visible : ∀ c ∈ (List.intercalate [','] branches ++ more).head?, isLayout c = false) :
    ∀ c ∈ (List.intercalate [','] (branches.map (prefixBranch combinator)) ++ more).head?,
      isLayout c = false := by
  match branches with
  | [] => exact visible
  | [branch] =>
    rw [List.intercalate_singleton] at visible
    rw [List.map_singleton, List.intercalate_singleton]
    exact prefixBranchHead harmless branch rfl visible
  | branch :: next :: rest =>
    rw [List.intercalate_cons_cons, List.append_assoc, List.append_assoc] at visible
    rw [List.map_cons, List.map_cons, List.intercalate_cons_cons, List.append_assoc,
      List.append_assoc]
    refine prefixBranchHead harmless branch ?_ visible
    rfl

theorem prefixHeading (harmless : Harmless combinator) {selector between : List Char}
    (heading : Heading selector between) :
    Heading (List.intercalate [','] ((Text.splitOn ',' selector).map (prefixBranch combinator)))
      between := by
  have joined := Text.joinSplit ',' selector
  obtain ⟨s, run, out⟩ := heading.ends
  constructor
  · exact heading.blank
  · rw [prefixLast, joined]
    exact heading.trimmed
  · refine ⟨s, ?_, out⟩
    rw [prefixPasses harmless (State.startQuotes 0) rfl, joined, run]
  · apply prefixHead harmless
    rw [joined]
    exact heading.visible

/-! ## A selector without its combinator -/

theorem remainingFront {combinator selector : String} {front : List Char}
    (whole : front ++ combinator.toList = selector.toList) :
    remaining combinator selector = Text.trim front := by
  unfold remaining
  dsimp only
  rw [← whole, List.length_append, Nat.add_sub_cancel, List.take_left' rfl]

theorem trimPasses {text : List Char} {s : State} (run : (State.start 0).passes text = some s)
    (out : s.outside = true) :
    ∃ t, (State.start 0).passes (Text.trim text) = some t ∧ t.outside = true := by
  have front : ∀ c ∈ leading text, State.inert c = true := fun c inside =>
    State.blankInert (Text.leadingBlank text c inside)
  have behind : ∀ c ∈ trailing (trimStart text), State.inert c = true := fun c inside =>
    State.blankInert (Text.trailingBlank _ c inside)
  rw [← Text.leadingTrimStart text, State.inertPasses front (State.startQuotes 0) rfl,
    ← Text.trimEndTrailing (trimStart text)] at run
  exact State.frontOutside behind run out

theorem remainingHeading {combinator selector : String} {between : List Char}
    (harmless : Harmless combinator.toList) (heading : Heading selector.toList between)
    (ends : combinator.toList <:+ selector.toList) (rest : remaining combinator selector ≠ []) :
    Heading (remaining combinator selector) between := by
  obtain ⟨front, whole⟩ := ends
  obtain ⟨s, run, out⟩ := heading.ends
  rw [remainingFront whole] at rest ⊢
  rw [← whole] at run
  obtain ⟨middle, frontRun, frontOut⟩ := State.frontOutside harmless.inert run out
  obtain ⟨t, trimRun, trimOut⟩ := trimPasses frontRun frontOut
  refine ⟨heading.blank, Text.trimEndLast _, ⟨t, trimRun, trimOut⟩, ?_⟩
  obtain ⟨c, cs, parts⟩ := List.exists_cons_of_ne_nil rest
  have shown : isBlank c = false := by
    refine Text.trimStartHead front c ?_
    have start := Text.trimEndTrailing (trimStart front)
    rw [← Text.trim, parts] at start
    rw [← start]
    rfl
  rw [parts] at trimRun ⊢
  rintro d ⟨⟩
  have ascii : Text.isAsciiBlank c = false := by
    rw [Bool.eq_false_iff]
    intro blank
    cases shown.symm.trans (Text.blankOfAscii blank)
  have semicolon : c ≠ ';' := by
    rintro rfl
    cases trimRun
  rw [isLayout, ascii, Bool.false_or, beq_eq_false_iff_ne]
  exact semicolon

end CombinatorRule
end SheetLint
