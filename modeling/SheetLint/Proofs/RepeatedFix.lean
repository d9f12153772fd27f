import SheetLint.Proofs.AcceptedSheets
import SheetLint.Proofs.FixedSheets
import SheetLint.Proofs.SelectorTerms

/-! Fixing what has been fixed. A selector gives up one combinator in a pass, so one that ends in two, of
its own or with one from the rule above, still ends in one behind the pass. Where no combinators are stacked
like this, a fixed sheet has nothing left to fix. -/
namespace SheetLint

/-! ## Stacked combinators -/

namespace CombinatorRule
open Selector Text
variable {pending : Option Char} {selector : String} {c : Char}

def lastBranch (selector : String) : List Char := (branches selector).getLast?.getD []

/- Whether a combinator is left at the end of a selector behind a pass: in the last branch, another one
stands before it, or nothing does and one comes from above. -/
def doubled (above : Bool) (selector : String) : Bool :=
  (ending? selector.toList).isSome &&
    (lastVisible? (lastBranch selector).dropLast).elim above isCombinator

theorem trimEnding (text : List Char) : ending? (trim text) = (lastVisible? text).filter isCombinator := by
  rw [ending?, trimLast]

theorem givenLast (known : ∀ c ∈ pending, isCombinator c = true) (selector : String) :
    ∃ before, (given pending selector).toList = before ++ givenBranch pending (lastBranch selector) ∧
      ∀ c ∈ lastVisible? before, c = ',' := by
  obtain ⟨first, rest, split⟩ := splitOnCons ',' selector.toList
  have some : branches selector ≠ [] := by simp [branches, split]
  have last : (branches selector).dropLast ++ [lastBranch selector] = branches selector := by
    rw [lastBranch, List.getLast?_eq_getLast_of_ne_nil some, Option.getD_some, List.dropLast_concat_getLast]
  have joined := joinSplit ',' (given pending selector).toList
  change List.intercalate [','] (branches (given pending selector)) = _ at joined
  rw [givenBranches known, ← last, List.map_append, List.map_singleton] at joined
  rw [← joined]
  exact joinLast rfl _ _

theorem lastBranchEnding (ends : ending? selector.toList = some c) :
    ∃ front, lastBranch selector = front ++ [c] := by
  obtain ⟨combinator, own⟩ := endingCases ends
  obtain ⟨before, whole, comma⟩ := @givenLast none (by simp) selector
  change selector.toList = before ++ lastBranch selector at whole
  rcases List.eq_nil_or_concat' (lastBranch selector) with empty | ⟨front, last, shape⟩
  · rw [empty, List.append_nil, ← own] at whole
    have seen : lastVisible? before = some c := by
      rw [← whole, lastVisibleAppend, lastVisibleAlone (combinatorVisible combinator), Option.some_or]
    rw [comma c seen] at combinator
    cases combinator
  · refine ⟨front, ?_⟩
    rw [shape, ← List.append_assoc, ← own] at whole
    rw [shape, List.append_inj_right' whole rfl]

theorem givenBranchVisible (combinator : isCombinator c = true)
    (known : ∀ c ∈ pending, isCombinator c = true) (front : List Char) :
    ∃ before, givenBranch pending (front ++ [c]) = before ++ [c] ∧
      lastVisible? before = (lastVisible? front).or pending := by
  cases pending with
  | none => exact ⟨front, rfl, (Option.or_none).symm⟩
  | some d =>
    refine ⟨leading (front ++ [c]) ++ [d] ++ [' '] ++ trimStart front, ?_, ?_⟩
    · rw [givenBranch, prefixBranch, trimStartAppend (combinatorVisible combinator)]
      split
      · next empty => simp at empty
      · simp
    · have blank : lastVisible? [' '] = none := lastVisibleBlanks (List.forall_mem_singleton.mpr rfl)
      simp only [lastVisibleAppend, lastVisibleStart, blank,
        lastVisibleAlone (combinatorVisible (known d rfl)), Option.none_or, Option.some_or]

theorem leftEnding (known : ∀ c ∈ pending, isCombinator c = true)
    (ends : ending? selector.toList = some c) :
    (ending? (remaining (.ofList [c]) (given pending selector))).isSome = doubled pending.isSome selector := by
  obtain ⟨front, last⟩ := lastBranchEnding ends
  obtain ⟨before, whole, comma⟩ := givenLast known selector
  obtain ⟨own, shape, visible⟩ := givenBranchVisible (endingCases ends).1 known front
  rw [last, shape, ← List.append_assoc] at whole
  rw [remainingCommon ((givenEnding pending selector).trans ends), trimEnding, whole, List.dropLast_concat,
    lastVisibleAppend, visible, doubled, ends, last, List.dropLast_concat, Option.isSome_some, Bool.true_and]
  cases lastVisible? front with
  | some d => cases combinator : isCombinator d <;> simp [Option.filter_some, combinator]
  | none =>
    cases pending with
    | some d => simp [known d rfl]
    | none =>
      -- nothing is left in this branch, and the one before it ends in its comma
      cases seen : lastVisible? before with
      | none => rfl
      | some d =>
        rw [comma d seen]
        rfl

/-! ## Sheets behind a pass -/

def stacked (above : Bool) : Forest Node → Bool
  | .nil => false
  | .cons node children next =>
    node.data.selector?.any (doubled above) || stacked (misplaces node.data) children || stacked above next

def unsettled (f : Forest Node) : Bool := f.labels.any fun node => misplaces node.data

theorem unsettledCons (node : Node) (children next : Forest Node) :
    unsettled (.cons node children next) = (misplaces node.data || unsettled children || unsettled next) := by
  simp [unsettled, Forest.labels, Bool.or_assoc]

theorem unsettledAppend (f g : Forest Node) : unsettled (f ++ g) = (unsettled f || unsettled g) := by
  rw [unsettled, Forest.labelsAppend, List.any_append]
  rfl

theorem goneSettled {combinator : String} (isGone : gone combinator selector = true) :
    ending? (remaining combinator selector) = none := by
  rw [gone, Bool.or_eq_true] at isGone
  rcases isGone with empty | nesting
  · rw [List.isEmpty_iff.mp empty]
    rfl
  · rw [beq_iff_eq.mp nesting]
    rfl

theorem shrinkUnsettled {node : Node} (rule : node.data.selector? = some selector) (combinator : String)
    (children : Forest Node) :
    unsettled (shrink node combinator selector children) =
      ((ending? (remaining combinator selector)).isSome || unsettled children) := by
  unfold shrink
  split
  · next isGone => rw [goneSettled isGone, Option.isSome_none, Bool.false_or]
  · rw [unsettledCons, misplacesRule (setSelectorSelector rule _), String.toList_ofList]
    exact Bool.or_false _

theorem fixedUnsettled (severity : Severity) (known : ∀ c ∈ pending, isCombinator c = true)
    (f : Forest Node) :
    unsettled ((including [] severity).fixed (pendingText pending) f) = stacked pending.isSome f := by
  -- induction on the forest: a rule is left with a combinator at its end if two of them were stacked
  induction f generalizing pending with
  | nil => rfl
  | cons node children next ihc ihn =>
    have settled := @ihc none (by simp)
    change unsettled ((including [] severity).fixed none children) = stacked false children at settled
    rw [fixed, stacked]
    dsimp only
    rw [faultCarried]
    cases rule : node.data.selector? with
    | none =>
      simp only [Option.bind_none, Option.any_none, unsettledCons, misplacesOther (carriedOther rule),
        misplacesOther rule, settled, ihn known]
    | some selector =>
      cases ends : ending? selector.toList with
      | none =>
        simp only [Option.bind_some, Option.any_some, ends, Option.map_none, Option.isSome_none, unsettledCons,
          misplacesRule (carriedRule rule), misplacesRule rule, givenEnding, doubled, Bool.false_and, settled, ihn known]
      | some c =>
        have below := @ihc (some c) (by simpa using (endingCases ends).1)
        change unsettled ((including [] severity).fixed (some (.ofList [c])) children) =
          stacked true children at below
        simp only [Option.bind_some, Option.any_some, ends, Option.map_some]
        rw [unsettledAppend, shrinkUnsettled (carriedRule rule), leftEnding known ends, below, ihn known,
          misplacesRule rule, ends]
        rfl

theorem faultMisplaces (severity : Severity) (data : NodeData) :
    (including [] severity).fault? data = none ↔ misplaces data = false := by
  rw [faultCommon]
  cases rule : data.selector? with
  | none => simp [misplacesOther rule]
  | some selector => simp [misplacesRule rule]

theorem reportSettled (severity : Severity) {sheet : Sheet} (distinct : sheet.Distinct) :
    ((including [] severity).run .report sheet).violations = [] ↔ unsettled sheet.body = false := by
  have found {node : Node} (inside : node ∈ sheet.body.labels) : sheet.get? node.id = some node.data := by
    rw [Sheet.get?, Sheet.findBody sheet (distinct.ne (Forest.labelsIds inside))]
    exact Forest.labelFound distinct.once inside
  simp only [reportQuiet, unsettled, List.any_eq_false, Bool.not_eq_true]
  constructor
  · intro quiet node inside
    rw [← faultMisplaces severity]
    cases rule : node.data.isRule with
    | false => exact faultRule rule
    | true =>
      have own := quiet node.id (List.mem_map_of_mem (List.mem_filter.mpr ⟨inside, rule⟩))
      rwa [found inside] at own
  · intro settled id listed
    obtain ⟨node, kept, rfl⟩ := List.mem_map.mp listed
    have inside := (List.mem_filter.mp kept).1
    rw [found inside]
    exact (faultMisplaces severity node.data).mpr (settled node inside)

theorem unsettledKinds {f g : Forest Node} (same : f.kinds = g.kinds) : unsettled f = unsettled g := by
  have kinds (f : Forest Node) : unsettled f = f.kinds.any fun kind => misplaces ⟨kind, {}, none⟩ := by
    rw [Forest.kinds, List.any_map]
    rfl
  rw [kinds f, kinds g, same]

end CombinatorRule

/-! ## Texts behind a pass -/

namespace Registry
open CombinatorRule

def combinatorsOnly (severity : Severity) : Registry := { rules := [(including [] severity).toRule] }

def Settled (severity : Severity) (text : String) : Prop :=
  (combinatorsOnly severity).lint .fix text = .ok ⟨[], [], text⟩ ∧
    (combinatorsOnly severity).lint .report text = .ok ⟨[], [], text⟩

theorem settledParsed (severity : Severity) {text : String} {sheet : Sheet}
    (ok : Sheet.parse text = .ok sheet) : Settled severity text ↔ unsettled sheet.body = false := by
  have reported := @lintKept (combinatorsOnly severity) .report text sheet ok (toRuleReadOnly _ sheet)
  rw [← reportSettled severity (Sheet.parseDistinct ok)]
  constructor
  · intro settled
    have both := reported.symm.trans settled.2
    exact congrArg Report.violations (Except.ok.inj both)
  · intro quiet
    have fixed : (combinatorsOnly severity).lintSheet .fix sheet = ⟨sheet, []⟩ :=
      toRuleAccepting _ sheet quiet
    change ((combinatorsOnly severity).lintSheet .report sheet).violations = [] at quiet
    constructor
    · rw [lintKept ok (congrArg Outcome.sheet fixed), fixed]
      rfl
    · rw [reported, quiet]
      rfl

theorem fixSettlesIffUnstacked (severity : Severity) {source : String} {sheet : Sheet}
    (ok : Sheet.parse source = .ok sheet) :
    let fixed := ((including [] severity).run .fix sheet).sheet
    (combinatorsOnly severity).lint .fix source = .ok ⟨[], [], fixed.print⟩ ∧
      (∀ again, Sheet.parse fixed.print = .ok again →
        (Settled severity fixed.print ↔ unsettled again.body = false)) ∧
      (fixed.legible = true → (Settled severity fixed.print ↔ stacked false sheet.body = false)) := by
  have distinct := Sheet.parseDistinct ok
  intro fixed
  refine ⟨?_, fun again reread => settledParsed severity reread, fun legible => ?_⟩
  · have silent : ((including [] severity).run .fix sheet).violations = [] :=
      congrArg Outcome.violations (runFix _ sheet)
    rw [lint, ok]
    change Except.ok (Report.mk ([] ++ ((including [] severity).run .fix sheet).violations) [] fixed.print) = _
    rw [silent]
    rfl
  · have whole : fixed = { sheet with body := (including [] severity).fixed none sheet.body } := by
      exact congrArg Outcome.sheet (runFixed _ distinct)
    have harmless : ∀ c ∈ (including [] severity).combinators, Harmless c.toList := fun c listed =>
      commonHarmless c (by simpa [including] using listed)
    have fixedDistinct : fixed.Distinct := by
      rw [whole]
      exact CombinatorRule.fixedDistinct distinct _
    have sound : fixed.Sound := by
      rw [whole]
      exact fixedSheetSound (parsedSound ok) harmless
    obtain ⟨again, reread, same⟩ := (soundRereads fixedDistinct sound).mpr legible
    rw [settledParsed severity reread,
      unsettledKinds (Sheet.outlineKinds (Sheet.parseDistinct reread) fixedDistinct same), whole]
    change unsettled ((including [] severity).fixed (pendingText none) sheet.body) = false ↔ _
    rw [fixedUnsettled severity (by simp)]
    rfl

def unstackedSource : String :=
  "x > \x7b > y \x7b @m \x7b + \x7b z \x7b\x7d \x7d \x7d \x7d u, v ~ \x7b w \x7b\x7d \x7d \x7d"

def unstackedText : String :=
  "x \x7b > > y \x7b @m \x7b + z \x7b\x7d \x7d \x7d > u, > v \x7b ~ w \x7b\x7d \x7d \x7d"

theorem fixSettlesUnstacked :
    ∃ sheet, Sheet.parse unstackedSource = .ok sheet ∧ stacked false sheet.body = false ∧
      (combinatorsOnly .error).lint .fix unstackedSource = .ok ⟨[], [], unstackedText⟩ ∧
      Settled .error unstackedText := by
  have checked : (Sheet.parse unstackedSource).toOption.any (fun sheet =>
      let fixed := ((including [] .error).run .fix sheet).sheet
      fixed.legible && fixed.print == unstackedText && !stacked false sheet.body) = true := by
    decide +kernel
  obtain ⟨sheet, ok⟩ : ∃ sheet, Sheet.parse unstackedSource = .ok sheet := Sheet.parses (by decide +kernel)
  rw [ok] at checked
  obtain ⟨both, unstacked⟩ := Bool.and_eq_true_iff.mp checked
  obtain ⟨legible, printed⟩ := Bool.and_eq_true_iff.mp both
  rw [Bool.not_eq_true'] at unstacked
  obtain ⟨first, -, settles⟩ := fixSettlesIffUnstacked .error ok
  have settled := (settles legible).mpr unstacked
  rw [beq_iff_eq.mp printed] at first settled
  exact ⟨sheet, ok, unstacked, first, settled⟩

theorem combinatorsMovedOneByOne :
    ((combinatorsOnly .error).lintRepeatedly .fix 4 ".a >>> \x7b .b \x7b\x7d \x7d").map
        (fun pass => pass.toOption.map Report.output) =
      [some ".a >> \x7b > .b \x7b\x7d \x7d", some ".a > \x7b > > .b \x7b\x7d \x7d",
        some ".a \x7b > > > .b \x7b\x7d \x7d", some ".a \x7b > > > .b \x7b\x7d \x7d"] ∧
    ((combinatorsOnly .error).lint .report ".a >> \x7b > .b \x7b\x7d \x7d").toOption.map
        (fun report => report.violations.length) = some 1 := by
  decide +kernel

example : ((combinatorsOnly .error).lintRepeatedly .fix 2 "a > \x7b> \x7bb \x7b\x7d\x7d\x7d").map
    (fun pass => pass.toOption.map Report.output) =
      [some "a \x7b> \x7b> b \x7b\x7d\x7d\x7d", some "a \x7b> > b \x7b\x7d\x7d"] := by
  decide +kernel

example : ((combinatorsOnly .error).lintRepeatedly .fix 2
    "a\x7b> \x7b// x\n\x7dp:(\n a > \x7bb:c\x7d\n):y\x7d").map
    (fun pass => pass.toOption.map Report.output) =
      [some "a\x7b// xp:(\n a > \x7bb:c\x7d\n):y\x7d", some "a\x7b// xp:(\n a \x7bb:c\x7d\n):y\x7d"] := by
  decide +kernel

end Registry
end SheetLint
