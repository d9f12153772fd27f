import SheetLint.Lint
import SheetLint.Proofs.Lossless

/-! Reporting changes nothing. A configuration only ever adds built-in rules; each of them hands back
the sheet it was given when it reports, so a whole run does, and the text printed at the end is the one
that was read. -/
namespace SheetLint

def Rule.ReadOnly (rule : Rule) : Prop := ∀ sheet, (rule.run .report sheet).sheet = sheet

/-! ## The built-in rules -/

namespace MagicRule
variable {rule : MagicRule}

theorem checkReport (id : NodeId) (state : State) (matcher : Matcher) :
    (rule.check .report id state matcher).sheet = state.sheet := by
  unfold check
  split
  · rfl
  · split
    · rfl
    · split
      · split
        · rfl
        · rw [if_neg (by simp)]
      · rfl

theorem checksReport (id : NodeId) (state : State) (matchers : List Matcher) :
    (matchers.foldl (rule.check .report id) state).sheet = state.sheet := by
  induction matchers generalizing state with
  | nil => rfl
  | cons matcher matchers ih => rw [List.foldl_cons, ih, checkReport]

theorem checkAllReport (ids : List NodeId) (state : State) :
    (ids.foldl (rule.checkAll .report) state).sheet = state.sheet := by
  induction ids generalizing state with
  | nil => rfl
  | cons id ids ih => rw [List.foldl_cons, ih, checkAll, checksReport]

theorem toRuleReadOnly (rule : MagicRule) : rule.toRule.ReadOnly := by
  intro sheet
  change (rule.run .report sheet).sheet = sheet
  unfold run
  split
  · rfl
  · exact checkAllReport _ _

end MagicRule

namespace CombinatorRule

def report? (rule : CombinatorRule) (sheet : Sheet) (id : NodeId) : Option Violation :=
  (sheet.get? id).bind fun node => (rule.fault? node).map fun fault => rule.violation node fault.1

theorem checkReport (rule : CombinatorRule) (outcome : Outcome) (id : NodeId) :
    rule.check .report outcome id =
      { outcome with violations := outcome.violations ++ (rule.report? outcome.sheet id).toList } := by
  unfold check report?
  cases outcome.sheet.get? id with
  | none => simp
  | some node =>
    simp only [Option.bind_some]
    cases rule.fault? node with
    | none => simp
    | some fault => rfl

theorem checksReport (rule : CombinatorRule) (ids : List NodeId) (outcome : Outcome) :
    ids.foldl (rule.check .report) outcome =
      { outcome with violations := outcome.violations ++ ids.filterMap (rule.report? outcome.sheet) } := by
  induction ids generalizing outcome with
  | nil => simp
  | cons id ids ih =>
    rw [List.foldl_cons, ih, checkReport, List.filterMap_cons]
    cases rule.report? outcome.sheet id with
    | none => simp
    | some violation => simp

theorem runReport (rule : CombinatorRule) (sheet : Sheet) :
    rule.run .report sheet = ⟨sheet, sheet.rules.filterMap (rule.report? sheet)⟩ := by
  rw [run, checksReport, List.nil_append]

theorem toRuleReadOnly (rule : CombinatorRule) : rule.toRule.ReadOnly :=
  fun sheet => congrArg Outcome.sheet (rule.runReport sheet)

end CombinatorRule

/-! ## Registries -/

inductive Rule.Builtin : Rule → Prop where
  | magic (rule : MagicRule) : Builtin rule.toRule
  | combinator (rule : CombinatorRule) : Builtin rule.toRule

theorem Rule.Builtin.readOnly {rule : Rule} (builtin : rule.Builtin) : rule.ReadOnly := by
  cases builtin with
  | magic rule => exact rule.toRuleReadOnly
  | combinator rule => exact rule.toRuleReadOnly

theorem buildBuiltin {builtin : Builtin} {primary : Json} {secondary : Option Json}
    {default : Severity} {rule : Rule} (ok : builtin.build primary secondary default = .ok rule) :
    rule.Builtin := by
  cases builtin with
  | magic =>
    rw [Builtin.build] at ok
    cases read : MagicRule.ofOptions primary secondary default with
    | error error =>
      rw [read] at ok
      cases ok
    | ok magic =>
      rw [read] at ok
      cases ok
      exact .magic magic
  | combinator =>
    rw [Builtin.build] at ok
    cases read : CombinatorRule.ofOptions primary secondary default with
    | error error =>
      rw [read] at ok
      cases ok
    | ok combinator =>
      rw [read] at ok
      cases ok
      exact .combinator combinator

namespace Registry

def AllBuiltin (registry : Registry) : Prop := ∀ rule ∈ registry.rules, rule.Builtin

theorem replaceOrAppendMem {rule own : Rule} {rules : List Rule}
    (inside : own ∈ replaceOrAppend rule rules) : own = rule ∨ own ∈ rules := by
  induction rules with
  | nil => exact .inl (List.mem_singleton.mp inside)
  | cons first rest ih =>
    rw [replaceOrAppend] at inside
    split at inside
    · rcases List.mem_cons.mp inside with same | behind
      · exact .inl same
      · exact .inr (List.mem_cons_of_mem _ behind)
    · rcases List.mem_cons.mp inside with rfl | behind
      · exact .inr List.mem_cons_self
      · exact (ih behind).imp_right (List.mem_cons_of_mem _)

theorem configureBuiltin {default : Severity} {registry result : Registry} {name : String}
    {setting : RuleSetting} (ok : registry.configure default name setting = .ok result)
    (sofar : registry.AllBuiltin) : result.AllBuiltin := by
  unfold configure at ok
  split at ok
  · cases ok
  · split at ok
    · cases ok
      exact sofar
    · split at ok
      · next built build =>
        cases ok
        intro rule inside
        rcases replaceOrAppendMem inside with rfl | old
        · exact buildBuiltin build
        · exact sofar rule old
      · cases ok
        exact sofar

theorem ofConfigBuiltin {config : Config} {registry : Registry}
    (ok : ofConfig config = .ok registry) : registry.AllBuiltin := by
  have settings (rules : List (String × RuleSetting)) (first : Registry) (sofar : first.AllBuiltin)
      (run : rules.foldlM (fun registry rule =>
        registry.configure config.defaultSeverity rule.1 rule.2) first = .ok registry) :
      registry.AllBuiltin := by
    induction rules generalizing first with
    | nil =>
      cases run
      exact sofar
    | cons rule rules ih =>
      rw [List.foldlM_cons] at run
      cases step : first.configure config.defaultSeverity rule.1 rule.2 with
      | error error =>
        rw [step] at run
        cases run
      | ok next =>
        rw [step] at run
        exact ih next (configureBuiltin step sofar) run
  exact settings config.rules {} (by intro rule inside; cases inside) ok

theorem lintSheetReport {registry : Registry} (readOnly : ∀ rule ∈ registry.rules, rule.ReadOnly)
    (sheet : Sheet) : (registry.lintSheet .report sheet).sheet = sheet := by
  have each (rules : List Rule) (readOnly : ∀ rule ∈ rules, rule.ReadOnly) (sofar : Outcome) :
      (rules.foldl (runRule .report) sofar).sheet = sofar.sheet := by
    induction rules generalizing sofar with
    | nil => rfl
    | cons rule rules ih =>
      obtain ⟨first, others⟩ := List.forall_mem_cons.mp readOnly
      rw [List.foldl_cons, ih others]
      exact first sofar.sheet
  exact each registry.rules readOnly ⟨sheet, []⟩

theorem reportKeepsSheetAndText {config : Config} {registry : Registry}
    (configured : ofConfig config = .ok registry) :
    (∀ sheet, (registry.lintSheet .report sheet).sheet = sheet) ∧
      ∀ source sheet, Sheet.parse source = .ok sheet →
        registry.lint .report source =
          .ok ⟨(registry.lintSheet .report sheet).violations, registry.invalid, source⟩ := by
  have kept := lintSheetReport fun rule inside => (ofConfigBuiltin configured rule inside).readOnly
  refine ⟨kept, ?_⟩
  intro source sheet ok
  obtain ⟨ps, after, cut, nested, root⟩ := Sheet.parseExact.mp ok
  have printed : sheet.print = source := String.toList_inj.mp (printCut cut nested root)
  rw [lint, ok]
  dsimp only
  rw [kept sheet, printed]

def bothRules : Config where
  rules := [
    ("aurora/declaration-property-value-no-magic",
      .primary (.object [("red", .object [("replacement", .string "$r"),
        ("uses", .object [("k", .string "lib/k")])])])),
    ("selector-nested-combinator-position", .primary (.string "as-prefix"))]

theorem reportKeepsViolations :
    ∃ registry sheet, ofConfig bothRules = .ok registry ∧
      Sheet.parse "a > \x7b b: red \x7d" = .ok sheet ∧
      (registry.lintSheet .report sheet).violations.length = 2 ∧
      (registry.lintSheet .report sheet).sheet = sheet ∧
      registry.lint .report "a > \x7b b: red \x7d" =
        .ok ⟨(registry.lintSheet .report sheet).violations, registry.invalid,
          "a > \x7b b: red \x7d"⟩ := by
  have found : (ofConfig bothRules).toOption.bind (fun registry =>
      (Sheet.parse "a > \x7b b: red \x7d").toOption.map fun sheet =>
        (registry.lintSheet .report sheet).violations.length) = some 2 := by decide +kernel
  cases configured : ofConfig bothRules with
  | error error =>
    rw [configured] at found
    cases found
  | ok registry =>
    obtain ⟨sheet, ok⟩ : ∃ sheet, Sheet.parse "a > \x7b b: red \x7d" = .ok sheet :=
      Sheet.parses (by decide +kernel)
    rw [configured, ok] at found
    obtain ⟨kept, text⟩ := reportKeepsSheetAndText configured
    exact ⟨registry, sheet, rfl, ok, Option.some.inj found, kept sheet, text _ sheet ok⟩

end Registry
end SheetLint
