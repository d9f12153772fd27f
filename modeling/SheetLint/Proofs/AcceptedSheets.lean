import SheetLint.Proofs.ReportMode

/-! What reporting accepts, fixing leaves alone. Both modes look for the same things: a step that reports
nothing has found nothing, so the same step has nothing to fix. Over a run this needs both modes to stand
on the same sheet, which they do as long as nothing is found. -/
namespace SheetLint

def Rule.Accepting (rule : Rule) : Prop :=
  ∀ sheet, (rule.run .report sheet).violations = [] → rule.run .fix sheet = ⟨sheet, []⟩

theorem quietRun {σ α : Type} (quiet : σ → Prop) {report fix : σ → α → σ} {items : List α}
    (step : ∀ a ∈ items, ∀ state, quiet (report state a) → report state a = state ∧ fix state a = state)
    {state : σ} (ends : quiet (items.foldl report state)) :
    items.foldl report state = state ∧ items.foldl fix state = state := by
  -- a step of the first run that ends quietly leaves both where they were
  induction items generalizing state with
  | nil => exact ⟨rfl, rfl⟩
  | cons a items ih =>
    obtain ⟨first, others⟩ := List.forall_mem_cons.mp step
    rw [List.foldl_cons] at ends
    -- the run behind the first step is quiet too, so it ends where that step has led
    obtain ⟨behind, -⟩ := ih others ends
    have calm := ends
    rw [behind] at calm
    obtain ⟨reported, fixed⟩ := first state calm
    rw [reported] at ends
    rw [List.foldl_cons, List.foldl_cons, reported, fixed]
    exact ih others ends

/-! ## The built-in rules -/

namespace MagicRule

def State.Quiet (state : State) : Prop := state.violations = []

theorem checkQuiet (rule : MagicRule) (id : NodeId) (state : State) (matcher : Matcher)
    (quiet : (rule.check .report id state matcher).Quiet) :
    rule.check .report id state matcher = state ∧ rule.check .fix id state matcher = state := by
  unfold check at quiet ⊢
  split
  · exact ⟨rfl, rfl⟩
  · next node found =>
    simp only [found] at quiet
    split
    · exact ⟨rfl, rfl⟩
    · next prop value parts =>
      simp only [parts] at quiet
      split
      · next applies =>
        simp only [applies, if_true] at quiet
        split
        · exact ⟨rfl, rfl⟩
        · next first rest ranges =>
          simp [State.Quiet, ranges] at quiet
      · exact ⟨rfl, rfl⟩

theorem checkAllQuiet (rule : MagicRule) (state : State) (id : NodeId)
    (quiet : (rule.checkAll .report state id).Quiet) :
    rule.checkAll .report state id = state ∧ rule.checkAll .fix state id = state :=
  quietRun State.Quiet (fun matcher _ state => rule.checkQuiet id state matcher) quiet

theorem toRuleAccepting (rule : MagicRule) : rule.toRule.Accepting := by
  intro sheet quiet
  change (rule.run .report sheet).violations = [] at quiet
  change rule.run .fix sheet = ⟨sheet, []⟩
  unfold run at quiet ⊢
  split
  · rfl
  · next some =>
    rw [if_neg some] at quiet
    obtain ⟨-, fixed⟩ := quietRun State.Quiet (fun id _ state => rule.checkAllQuiet state id) quiet
    rw [fixed]

end MagicRule

namespace CombinatorRule

theorem checkKeeps {rule : CombinatorRule} {outcome : Outcome} {id : NodeId} (mode : Mode)
    (sound : (outcome.sheet.get? id).bind rule.fault? = none) : rule.check mode outcome id = outcome := by
  unfold check
  cases found : outcome.sheet.get? id with
  | none => rfl
  | some node =>
    rw [found, Option.bind_some] at sound
    simp only [sound]

theorem reportQuiet {rule : CombinatorRule} {sheet : Sheet} :
    (rule.run .report sheet).violations = [] ↔
      ∀ id ∈ sheet.rules, (sheet.get? id).bind rule.fault? = none := by
  rw [runReport, List.filterMap_eq_nil_iff]
  refine forall₂_congr fun id _ => ?_
  rw [report?]
  cases sheet.get? id with
  | none => simp
  | some node => simp

theorem toRuleAccepting (rule : CombinatorRule) : rule.toRule.Accepting := by
  intro sheet quiet
  have sound := reportQuiet.mp quiet
  have kept (ids : List NodeId) (sound : ∀ id ∈ ids, (sheet.get? id).bind rule.fault? = none) :
      ids.foldl (rule.check .fix) ⟨sheet, []⟩ = ⟨sheet, []⟩ := by
    induction ids with
    | nil => rfl
    | cons id ids ih =>
      obtain ⟨first, others⟩ := List.forall_mem_cons.mp sound
      rw [List.foldl_cons, checkKeeps .fix first, ih others]
  exact kept sheet.rules sound

end CombinatorRule

theorem Rule.Builtin.accepting {rule : Rule} (builtin : rule.Builtin) : rule.Accepting := by
  cases builtin with
  | magic rule => exact rule.toRuleAccepting
  | combinator rule => exact rule.toRuleAccepting

/-! ## Registries -/

namespace Registry

theorem runRuleQuiet {rule : Rule} (readOnly : rule.ReadOnly) (accepting : rule.Accepting)
    (sofar : Outcome) (quiet : (runRule .report sofar rule).violations = []) :
    runRule .report sofar rule = sofar ∧ runRule .fix sofar rule = sofar := by
  obtain ⟨before, own⟩ := List.append_eq_nil_iff.mp quiet
  have reported := readOnly sofar.sheet
  have fixed := accepting sofar.sheet own
  constructor
  · simp [runRule, reported, own]
  · simp [runRule, fixed]

theorem lintSheetAccepted {registry : Registry} (builtin : registry.AllBuiltin) {sheet : Sheet}
    (clean : (registry.lintSheet .report sheet).violations = []) :
    registry.lintSheet .fix sheet = ⟨sheet, []⟩ := by
  have step (rule : Rule) (inside : rule ∈ registry.rules) :=
    runRuleQuiet (builtin rule inside).readOnly (builtin rule inside).accepting
  exact (quietRun (fun outcome : Outcome => outcome.violations = []) step clean).2

theorem lintKept {registry : Registry} {mode : Mode} {source : String} {sheet : Sheet}
    (ok : Sheet.parse source = .ok sheet) (kept : (registry.lintSheet mode sheet).sheet = sheet) :
    registry.lint mode source =
      .ok ⟨(registry.lintSheet mode sheet).violations, registry.invalid, source⟩ := by
  obtain ⟨ps, after, cut, nested, root⟩ := Sheet.parseExact.mp ok
  have printed : sheet.print = source := String.toList_inj.mp (printCut cut nested root)
  rw [lint, ok]
  dsimp only
  rw [kept, printed]

theorem acceptedKeptByFix {config : Config} {registry : Registry}
    (configured : ofConfig config = .ok registry) :
    (∀ sheet, (registry.lintSheet .report sheet).violations = [] →
        registry.lintSheet .fix sheet = ⟨sheet, []⟩) ∧
      ∀ source report, registry.lint .report source = .ok report → report.violations = [] →
        registry.lint .fix source = .ok ⟨[], registry.invalid, source⟩ := by
  have builtin := ofConfigBuiltin configured
  refine ⟨fun sheet clean => lintSheetAccepted builtin clean, ?_⟩
  intro source report reported clean
  rw [lint] at reported
  split at reported
  · cases reported
  · next sheet ok =>
    cases reported
    have accepted := lintSheetAccepted builtin clean
    rw [lintKept ok (congrArg Outcome.sheet accepted), accepted]

theorem acceptedNearMisses :
    ∃ registry report, ofConfig bothRules = .ok registry ∧
      registry.lint .report "a > b \x7b c: redder; > d \x7b\x7d\x7d" = .ok report ∧
      report.violations = [] ∧
      registry.lint .fix "a > b \x7b c: redder; > d \x7b\x7d\x7d" =
        .ok ⟨[], registry.invalid, "a > b \x7b c: redder; > d \x7b\x7d\x7d"⟩ := by
  have found : (ofConfig bothRules).toOption.bind (fun registry =>
      (registry.lint .report "a > b \x7b c: redder; > d \x7b\x7d\x7d").toOption.map fun report =>
        report.violations) = some [] := by decide +kernel
  cases configured : ofConfig bothRules with
  | error error =>
    rw [configured] at found
    cases found
  | ok registry =>
    cases reported : registry.lint .report "a > b \x7b c: redder; > d \x7b\x7d\x7d" with
    | error error =>
      simp [configured, reported, Except.toOption] at found
    | ok report =>
      have clean : report.violations = [] := by
        simpa [configured, reported, Except.toOption] using found
      exact ⟨registry, report, rfl, reported, clean,
        (acceptedKeptByFix configured).2 _ report reported clean⟩

end Registry
end SheetLint
