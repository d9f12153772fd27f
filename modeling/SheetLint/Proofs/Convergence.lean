import Mathlib.Logic.Function.Iterate
import SheetLint.Proofs.FixedSheets
import SheetLint.Proofs.TopDownFix

/-! Fixing misplaced combinators again and again. A pass makes selectors longer as well as shorter, since a
combinator that one rule gives up comes back on every branch below it. But it only goes down: nothing is
ever put in front of the topmost selectors, so they come to rest first, then those below them. -/
namespace SheetLint.CombinatorRule
open Forest
variable {rule : CombinatorRule} {f g : Forest Node}

def Finished (rule : CombinatorRule) (f : Forest Node) : Prop :=
  ∀ node ∈ f.labels, rule.fault? node.data = none

def Settles (rule : CombinatorRule) (f : Forest Node) : Prop :=
  ∃ n, rule.Finished ((rule.fixed none)^[n] f)

def Spelled (rule : CombinatorRule) : Prop := ∀ combinator ∈ rule.combinators, combinator ≠ ""

theorem finishedFixed (finished : rule.Finished f) : rule.fixed none f = f := by
  induction f with
  | nil => rfl
  | cons node children next ihc ihn =>
    simp only [Finished, labels, List.forall_mem_cons, List.forall_mem_append] at finished
    obtain ⟨own, below, behind⟩ := finished
    simp only [fixed, carry, own, ihc below, ihn behind]

theorem finishedAppend : rule.Finished (f ++ g) ↔ rule.Finished f ∧ rule.Finished g := by
  simp only [Finished, labelsAppend, List.forall_mem_append]

theorem finishedLater {n m : Nat} (finished : rule.Finished ((rule.fixed none)^[n] f)) (later : n ≤ m) :
    (rule.fixed none)^[m] f = (rule.fixed none)^[n] f := by
  obtain ⟨more, rfl⟩ := Nat.exists_eq_add_of_le' later
  rw [Function.iterate_add_apply]
  exact Function.iterate_fixed (finishedFixed finished) more

theorem passesAppended (rule : CombinatorRule) (n : Nat) (f g : Forest Node) :
    (rule.fixed none)^[n] (f ++ g) = (rule.fixed none)^[n] f ++ (rule.fixed none)^[n] g := by
  induction n generalizing f g with
  | zero => rfl
  | succ n ih => simp only [Function.iterate_succ_apply, fixedAppend, ih]

theorem Settles.append (left : rule.Settles f) (right : rule.Settles g) : rule.Settles (f ++ g) := by
  obtain ⟨n, first⟩ := left
  obtain ⟨m, second⟩ := right
  refine ⟨max n m, ?_⟩
  rw [passesAppended, finishedLater first (Nat.le_max_left n m),
    finishedLater second (Nat.le_max_right n m)]
  exact finishedAppend.mpr ⟨first, second⟩

theorem Settles.before (after : rule.Settles (rule.fixed none f)) : rule.Settles f := by
  obtain ⟨n, finished⟩ := after
  exact ⟨n + 1, finished⟩

theorem Settles.under {node : Node} {children : Forest Node} (own : rule.fault? node.data = none)
    (below : rule.Settles children) : rule.Settles (.cons node children .nil) := by
  obtain ⟨n, finished⟩ := below
  have inside : (rule.fixed none)^[n] (.cons node children .nil) =
      .cons node ((rule.fixed none)^[n] children) .nil := by
    clear finished
    induction n generalizing children with
    | zero => rfl
    | succ n ih =>
      have pass : rule.fixed none (.cons node children .nil) =
          .cons node (rule.fixed none children) .nil := by
        simp only [fixed, carry, own]
      simp only [Function.iterate_succ_apply, pass, ih]
  refine ⟨n, ?_⟩
  simpa [inside, Finished, labels, own] using finished

/-! ## What gets smaller -/

def selectorLength (data : NodeData) : Nat := data.selector?.elim 0 fun selector => selector.toList.length

theorem lengthTrim (text : List Char) : (Text.trim text).length ≤ text.length := by
  have front := Text.trimStartLength text
  have whole := congrArg List.length (Text.trimEndTrailing (Text.trimStart text))
  rw [List.length_append] at whole
  unfold Text.trim
  omega

theorem remainingShorter {combinator selector : String} (spelled : combinator ≠ "")
    (ends : combinator.toList <:+ selector.toList) :
    (remaining combinator selector).length < selector.toList.length := by
  have some : 0 < combinator.toList.length := List.length_pos_iff.mpr (by simpa using spelled)
  have fits := ends.length_le
  have left := lengthTrim (selector.toList.take (selector.toList.length - combinator.toList.length))
  rw [List.length_take] at left
  simp only [remaining]
  omega

theorem fixedSize (rule : CombinatorRule) (pending : Option String) (f : Forest Node) :
    (rule.fixed pending f).size ≤ f.size := by
  have fewer := (rule.fixedIds pending f).length_le
  rwa [idsLength, idsLength] at fewer

theorem treeSettles (spelled : rule.Spelled) {bound : Nat}
    (smaller : ∀ f : Forest Node, f.size < bound → rule.Settles f) {node : Node}
    {children : Forest Node} (few : children.size < bound) : rule.Settles (.cons node children .nil) := by
  -- induction on the length of the selector on top: a pass takes the node away, or leaves it a shorter
  -- selector above other children, of which there are no more than before
  induction length : selectorLength node.data using Nat.strongRecOn generalizing node children with
  | ind length ih =>
    cases fault : rule.fault? node.data with
    | none => exact (smaller children few).under fault
    | some both =>
      obtain ⟨combinator, selector⟩ := both
      obtain ⟨kind, listed, ends⟩ := faultCases fault
      have pass : rule.fixed none (.cons node children .nil) =
          shrink node combinator selector (rule.fixed (some combinator) children) := by
        simp only [fixed, carry, fault, appendNil]
      have fewer := Nat.lt_of_le_of_lt (rule.fixedSize (some combinator) children) few
      apply Settles.before
      rw [pass, shrink]
      split
      · exact smaller _ fewer
      · refine ih _ ?_ fewer rfl
        have shorter := remainingShorter (spelled combinator listed) ends
        simpa [← length, selectorLength, NodeData.setSelector, NodeData.selector?, kind] using shorter

theorem forestSettles (spelled : rule.Spelled) (f : Forest Node) : rule.Settles f := by
  induction size : f.size using Nat.strongRecOn generalizing f with
  | ind bound ih =>
    cases f with
    | nil => exact ⟨0, by simp [Finished, labels]⟩
    | cons node children next =>
      simp only [Forest.size] at size
      have smaller (g : Forest Node) (less : g.size < bound) : rule.Settles g := ih g.size less g rfl
      have tree : rule.Settles (.cons node children .nil) := treeSettles spelled smaller (by omega)
      exact tree.append (smaller next (by omega))

/-! ## Whole sheets -/

def pass (rule : CombinatorRule) (sheet : Sheet) : Sheet := (rule.run .fix sheet).sheet

theorem passesDistinct (rule : CombinatorRule) {sheet : Sheet} (distinct : sheet.Distinct) (n : Nat) :
    rule.pass^[n] sheet = { sheet with body := (rule.fixed none)^[n] sheet.body } := by
  induction n generalizing sheet with
  | zero => rfl
  | succ n ih =>
    have first : rule.pass sheet = { sheet with body := rule.fixed none sheet.body } :=
      congrArg Outcome.sheet (runFixed rule distinct)
    simp only [Function.iterate_succ_apply, first, ih (fixedDistinct distinct rule)]

theorem passesWellFormed (rule : CombinatorRule) {sheet : Sheet} (wellFormed : sheet.WellFormed) (n : Nat) :
    rule.pass^[n] sheet = { sheet with body := (rule.fixed none)^[n] sheet.body } := by
  obtain ⟨fresh, distinct⟩ := wellFormed.distinct
  have alike : Function.Semiconj (Sheet.renumber sheet.fresh) rule.pass rule.pass := fun sheet' =>
    (rule.runRenumber sheet.fresh sheet').symm
  have back := alike.iterate_right n (sheet.renumber fresh)
  rw [rule.passesDistinct distinct] at back
  exact back.symm

theorem ofOptionsSpelled {primary : Json} {secondary : Option Json} {default : Severity}
    (ok : ofOptions primary secondary default = .ok rule) : rule.Spelled := by
  simp only [ofOptions, bind, Except.bind] at ok
  split at ok
  · cases ok
  split at ok
  · cases ok
  split at ok
  · cases ok
  next spelled =>
  cases ok
  intro combinator listed
  rcases List.mem_append.mp listed with usual | included
  · simp only [common, List.mem_cons, List.not_mem_nil, or_false] at usual
    rcases usual with rfl | rfl | rfl <;> decide
  · intro empty
    exact spelled (List.any_eq_true.mpr ⟨combinator, included, by simp [empty]⟩)

theorem faultNone {data : NodeData} (quiet : rule.fault? data = none) :
    ∀ selector ∈ data.selector?, ∀ combinator ∈ rule.combinators,
      ¬ combinator.toList <:+ selector.toList := by
  intro selector own combinator listed ends
  rw [fault?, Option.mem_def.mp own, Option.bind_some, Option.map_eq_none_iff, detect,
    List.find?_eq_none] at quiet
  exact quiet combinator listed (List.isSuffixOf_iff_suffix.mpr ends)

theorem passesConverge :
    (∀ primary secondary default rule, ofOptions primary secondary default = .ok rule → rule.Spelled) ∧
    ∀ rule : CombinatorRule, rule.Spelled → ∀ sheet : Sheet, sheet.WellFormed →
      ∃ n, (∀ node ∈ (rule.pass^[n] sheet).body.labels, ∀ selector ∈ node.data.selector?,
          ∀ combinator ∈ rule.combinators, ¬ combinator.toList <:+ selector.toList) ∧
        ∀ m, n ≤ m → rule.pass^[m] sheet = rule.pass^[n] sheet := by
  refine ⟨fun _ _ _ _ => ofOptionsSpelled, fun rule spelled sheet wellFormed => ?_⟩
  obtain ⟨n, finished⟩ := forestSettles spelled sheet.body
  simp only [rule.passesWellFormed wellFormed]
  exact ⟨n, fun node inside => faultNone (finished node inside),
    fun m later => by rw [finishedLater finished later]⟩

def growingSource : String := "a >+ \x7bb \x7bc ~ \x7b\x7d\x7d d, e\x7b\x7d\x7d"

def grownText : String := "a \x7b> + b c \x7b\x7d > + d, > + e\x7b\x7d\x7d"

theorem passesConvergeGrown :
    ∃ rule sheet, ofOptions (.string "as-prefix") (some (.object [("includes", .array [.string "+ b"])]))
        .error = .ok rule ∧ Sheet.parse growingSource = .ok sheet ∧ sheet.WellFormed ∧
      ∃ n, ∀ m, n ≤ m → (rule.pass^[m] sheet).print = grownText := by
  obtain ⟨sheet, ok⟩ : ∃ sheet, Sheet.parse growingSource = .ok sheet := Sheet.parses (by decide +kernel)
  have wellFormed := (Sheet.parseDistinct ok).wellFormed
  have built : ofOptions (.string "as-prefix") (some (.object [("includes", .array [.string "+ b"])]))
      .error = .ok (including ["+ b"] .error) := by rfl
  have computed : (Sheet.parse growingSource).toOption.all (fun sheet =>
      (including ["+ b"] .error).pass ((including ["+ b"] .error).pass^[2] sheet) =
          (including ["+ b"] .error).pass^[2] sheet &&
        ((including ["+ b"] .error).pass^[2] sheet).print == grownText) = true := by
    decide +kernel
  rw [ok, Except.toOption, Option.all_some, Bool.and_eq_true, decide_eq_true_iff, beq_iff_eq] at computed
  obtain ⟨spelled, converges⟩ := passesConverge
  obtain ⟨n, -, later⟩ := converges _ (spelled _ _ _ _ built) sheet wellFormed
  refine ⟨_, sheet, built, ok, wellFormed, n, fun m more => ?_⟩
  -- the sheet of two passes stays as it is, so it is the one that all passes come to
  have same := later (n + 2) (Nat.le_add_right n 2)
  rw [Function.iterate_add_apply, Function.iterate_fixed computed.1] at same
  rw [later m more, ← same, computed.2]

end SheetLint.CombinatorRule
