import Mathlib.Data.List.Nodup
import SheetLint.Registry

/-! The rules that a configuration comes to. The entries are taken in turn, in the order of their names: one
whose name is none of a built-in rule ends the work; one that is switched off changes nothing; one whose
options are refused leaves an error; any other puts its rule where an earlier one of the same identifier
stands, or behind all of them. So the first entry that builds a rule settles its place, and the last one
settles the rule. -/
namespace SheetLint

/-! ## Names -/

namespace Builtin

def bareName : Builtin → String
  | magic => "declaration-property-value-no-magic"
  | combinator => "selector-nested-combinator-position"

def spellings (rule : Builtin) : List String := [rule.bareName, RuleId.home ++ "/" ++ rule.bareName]

def Known (name : String) : Prop := ∃ rule : Builtin, name ∈ rule.spellings

theorem idBare (rule : Builtin) : rule.id = .builtin rule.bareName := by
  cases rule <;> rfl

theorem bareNameInjective {rule other : Builtin} (same : rule.bareName = other.bareName) : rule = other := by
  cases rule <;> cases other <;> first | rfl | exact absurd same (by decide)

theorem bareJoined (name : String) :
    name = RuleId.bare name ∨ name = RuleId.home ++ "/" ++ RuleId.bare name := by
  unfold RuleId.bare
  dsimp only
  split
  · next marked =>
    obtain ⟨rest, whole⟩ := List.isPrefixOf_iff_prefix.mp marked
    refine .inr (String.toList_inj.mp ?_)
    rw [String.toList_append, String.toList_ofList, ← whole, List.drop_left]
  · exact .inl rfl

theorem spelledBare {rule : Builtin} {name : String} :
    name ∈ rule.spellings ↔ RuleId.bare name = rule.bareName := by
  rw [spellings, List.mem_pair]
  constructor
  · rintro (rfl | rfl)
    · cases rule <;> decide
    · cases rule <;> decide
  · intro same
    have joined := bareJoined name
    rwa [same] at joined

theorem spelledUnique {rule other : Builtin} {name : String} (spelled : name ∈ rule.spellings)
    (otherwise : name ∈ other.spellings) : rule = other :=
  bareNameInjective ((spelledBare.mp spelled).symm.trans (spelledBare.mp otherwise))

def fullName (name : String) : String := ((RuleId.namespaced? name).map RuleId.text).getD name

theorem ofNameSpelled {rule : Builtin} {name : String} (spelled : name ∈ rule.spellings) :
    ofName name = .ok rule := by
  have valid : RuleId.isValid (RuleId.home ++ "/" ++ rule.bareName).toList = true := by
    cases rule <;> decide
  have found : all.find? (fun own => own.id == .builtin rule.bareName) = some rule := by
    cases rule <;> decide
  have known : RuleId.namespaced? name = some (.builtin rule.bareName) := by
    unfold RuleId.namespaced?
    rw [spelledBare.mp spelled]
    exact if_pos valid
  unfold ofName
  simp only [known, found]

theorem namespacedBare {name : String} {id : RuleId} (known : RuleId.namespaced? name = some id) :
    id = .builtin (RuleId.bare name) := by
  unfold RuleId.namespaced? RuleId.ofString? at known
  split at known
  · exact (Option.some.inj known).symm
  · cases known

theorem builtinInjective {name other : String} (same : RuleId.builtin name = .builtin other) : name = other := by
  have texts := congrArg (String.toList ∘ RuleId.text) same
  simp only [RuleId.builtin, Function.comp, String.toList_append] at texts
  exact String.toList_inj.mp (List.append_cancel_left texts)

theorem idInjective {rule other : Builtin} (same : rule.id = other.id) : rule = other := by
  rw [idBare, idBare] at same
  exact bareNameInjective (builtinInjective same)

theorem ofNameUnknown {name : String} (unknown : ¬ Known name) :
    ofName name = .error ⟨fullName name⟩ := by
  unfold ofName fullName
  cases known : RuleId.namespaced? name with
  | none => rfl
  | some id =>
    have none : all.find? (fun rule => rule.id == id) = none := by
      refine List.find?_eq_none.mpr fun rule _ same => unknown ⟨rule, spelledBare.mpr ?_⟩
      rw [beq_iff_eq, idBare, namespacedBare known] at same
      exact (builtinInjective same).symm
    simp only [none, Option.map_some, Option.getD_some]

def spelled? (name : String) : Option Builtin := all.find? fun rule => rule.spellings.contains name

theorem spelledFound {rule : Builtin} {name : String} : spelled? name = some rule ↔ name ∈ rule.spellings := by
  constructor
  · intro found
    simpa using List.find?_some found
  · intro spelled
    cases found : spelled? name with
    | none =>
      have missing := List.find?_eq_none.mp found rule (by cases rule <;> simp [all])
      simp [spelled] at missing
    | some other =>
      have otherwise : name ∈ other.spellings := by simpa using List.find?_some found
      rw [spelledUnique otherwise spelled]

end Builtin

/-! ## Settings -/

namespace RuleSetting

def Off (setting : RuleSetting) : Prop :=
  setting = enabled false ∨ setting = primary .null ∨ ∃ second, setting = withOptions .null second

inductive Gives : RuleSetting → Json → Option Json → Prop
  | flag : Gives (enabled true) (.bool true) none
  | pair {first second : Json} (given : first ≠ .null) : Gives (withOptions first second) first (some second)
  | wrapped {item : Json} : Gives (primary (.array [item])) item none
  | alone {value : Json} (given : value ≠ .null) (bare : ∀ item, value ≠ .array [item]) :
      Gives (primary value) value none

theorem isNullExact {value : Json} : value.isNull = true ↔ value = .null := by
  cases value <;> simp [Json.isNull]

theorem offExact {setting : RuleSetting} : setting.options? = none ↔ setting.Off := by
  have disabled : setting.options? = none ↔ ¬ setting.isEnabled = true := by
    unfold options?
    repeat' split
    all_goals simp_all
  rw [disabled]
  cases setting with
  | enabled value => simp [isEnabled, Off]
  | withOptions first second => simp [isEnabled, Off, isNullExact]
  | primary value => simp [isEnabled, Off, isNullExact]

theorem givesExact {setting : RuleSetting} {first : Json} {second : Option Json} :
    setting.options? = some (first, second) ↔ setting.Gives first second := by
  constructor
  · intro given
    unfold options? at given
    split at given
    · next on =>
      split at given
      · obtain rfl : _ = true := on
        cases given
        exact .flag
      · cases given
        exact .pair fun null => by simp [isEnabled, null, Json.isNull] at on
      · cases given
        exact .wrapped
      · next value other =>
        cases given
        exact .alone (fun null => by simp [isEnabled, null, Json.isNull] at on) other
    · cases given
  · intro gives
    cases gives with
    | flag => rfl
    | pair given => simp [options?, isEnabled, isNullExact, given]
    | wrapped => rfl
    | alone given bare =>
      unfold options?
      rw [if_pos (by simp [isEnabled, ← Bool.not_eq_true, isNullExact, given])]
      split
      · contradiction
      · contradiction
      · next same => exact absurd (RuleSetting.primary.inj same) (bare _)
      · next same => rw [RuleSetting.primary.inj same]

end RuleSetting

/-! ## Entries -/

namespace Builtin

theorem buildId {rule : Builtin} {primary : Json} {secondary : Option Json} {default : Severity} {built : Rule}
    (ok : rule.build primary secondary default = .ok built) : built.id = rule.id := by
  have mapped {α : Type} {toRule : α → Rule} {given : Except ConfigError α} (ok : given.map toRule = .ok built) :
      ∃ own, toRule own = built := by
    cases given with
    | error error => cases ok
    | ok own => exact ⟨own, Except.ok.inj ok⟩
  cases rule with
  | magic =>
    obtain ⟨own, rfl⟩ := mapped ok
    rfl
  | combinator =>
    obtain ⟨own, rfl⟩ := mapped ok
    rfl

def attempt? (default : Severity) (entry : String × RuleSetting) : Option (Builtin × Except ConfigError Rule) := do
  let rule ← spelled? entry.1
  let (primary, secondary) ← entry.2.options?
  return (rule, rule.build primary secondary default)

def accepted? (default : Severity) (entry : String × RuleSetting) : Option (Builtin × Rule) :=
  match attempt? default entry with
  | some (rule, .ok built) => some (rule, built)
  | _ => none

def refused? (default : Severity) (entry : String × RuleSetting) : Option ConfigError :=
  match attempt? default entry with
  | some (_, .error error) => some error
  | _ => none

theorem attemptExact {default : Severity} {entry : String × RuleSetting} {rule : Builtin}
    {result : Except ConfigError Rule} :
    attempt? default entry = some (rule, result) ↔
      entry.1 ∈ rule.spellings ∧ ∃ primary secondary, entry.2.Gives primary secondary ∧
        rule.build primary secondary default = result := by
  simp only [attempt?, Option.bind_eq_bind, Option.bind_eq_some_iff, Option.pure_def, Option.some.injEq,
    Prod.mk.injEq, Prod.exists, spelledFound, RuleSetting.givesExact]
  constructor
  · rintro ⟨own, spelled, primary, secondary, given, rfl, made⟩
    exact ⟨spelled, primary, secondary, given, made⟩
  · rintro ⟨spelled, primary, secondary, given, made⟩
    exact ⟨rule, spelled, primary, secondary, given, rfl, made⟩

theorem acceptedExact {default : Severity} {entry : String × RuleSetting} {rule : Builtin} {built : Rule} :
    accepted? default entry = some (rule, built) ↔ attempt? default entry = some (rule, .ok built) := by
  unfold accepted?
  split
  · next own made attempted => simp [attempted]
  · next other =>
    simp only [reduceCtorEq, false_iff]
    exact other rule built

end Builtin

namespace Registry
open Builtin

/-! ## Places of rules -/

theorem replacedIds (rule : Rule) (rules : List Rule) :
    (replaceOrAppend rule rules).map Rule.id =
      if rule.id ∈ rules.map Rule.id then rules.map Rule.id else rules.map Rule.id ++ [rule.id] := by
  induction rules with
  | nil => rfl
  | cons own rest ih =>
    rw [replaceOrAppend]
    split
    · next same => simp [same]
    · next differs =>
      rw [List.map_cons, ih, List.map_cons]
      simp only [List.mem_cons, Ne.symm differs, false_or]
      split <;> rfl

theorem replacedFound (rule : Rule) (rules : List Rule) (id : RuleId) :
    (replaceOrAppend rule rules).find? (fun own => own.id == id) =
      if rule.id = id then some rule else rules.find? fun own => own.id == id := by
  induction rules with
  | nil =>
    rw [replaceOrAppend, List.find?_singleton]
    simp
  | cons own rest ih =>
    rw [replaceOrAppend]
    split
    · next same => by_cases wanted : rule.id = id <;> simp [same, wanted]
    · next differs =>
      by_cases wanted : own.id = id
      · rw [List.find?_cons_of_pos (by simpa using wanted), List.find?_cons_of_pos (by simpa using wanted),
          if_neg fun other => differs (wanted.trans other.symm)]
      · rw [List.find?_cons_of_neg (by simpa using wanted), List.find?_cons_of_neg (by simpa using wanted), ih]

theorem firstsAppend (ids : List RuleId) (id : RuleId) :
    (ids ++ [id]).eraseDups = if id ∈ ids then ids.eraseDups else ids.eraseDups ++ [id] := by
  rw [List.eraseDups_append]
  split
  · next listed => simp [List.removeAll, listed]
  · next fresh => simp [List.removeAll, fresh, List.eraseDups_cons]

/-! ## Entries in turn -/

/- What is left of the entries that have been taken into account: each rule stands where the first entry
that builds it puts it, and is the one that the last of them builds. -/
structure Reflects (default : Severity) (entries : List (String × RuleSetting)) (registry : Registry) : Prop where
  distinct : (registry.rules.map Rule.id).Nodup
  ids : registry.rules.map Rule.id = ((entries.filterMap (accepted? default)).map fun own => own.1.id).eraseDups
  last (rule : Builtin) : registry.get? rule.id = (entries.filterMap (accepted? default)).reverse.lookup rule
  invalid : registry.invalid = entries.filterMap (refused? default)

def take (registry : Registry) : Option (Builtin × Except ConfigError Rule) → Registry
  | none => registry
  | some (_, .ok built) => registry.add built
  | some (_, .error error) => { registry with invalid := registry.invalid ++ [error] }

variable {default : Severity} {entries : List (String × RuleSetting)} {registry : Registry}

theorem configureSpelled {rule : Builtin} {name : String} {setting : RuleSetting}
    (spelled : name ∈ rule.spellings) :
    registry.configure default name setting = .ok (registry.take (attempt? default (name, setting))) := by
  unfold configure
  rw [ofNameSpelled spelled]
  cases given : setting.options? with
  | none => simp [attempt?, given, take]
  | some options =>
    have attempted : attempt? default (name, setting) = some (rule, rule.build options.1 options.2 default) :=
      attemptExact.mpr ⟨spelled, options.1, options.2, RuleSetting.givesExact.mp given, rfl⟩
    rw [attempted]
    dsimp only
    cases rule.build options.1 options.2 default <;> rfl

theorem Reflects.pass (sofar : Reflects default entries registry) (entry : String × RuleSetting)
    (none : accepted? default entry = none) :
    Reflects default (entries ++ [entry])
      { registry with invalid := registry.invalid ++ (refused? default entry).toList } := by
  have accepted : (entries ++ [entry]).filterMap (accepted? default) = entries.filterMap (accepted? default) := by
    simp [none]
  refine ⟨sofar.distinct, accepted ▸ sofar.ids, accepted ▸ sofar.last, ?_⟩
  dsimp only
  rw [List.filterMap_append, ← sofar.invalid]
  cases refused : refused? default entry <;> simp [refused]

theorem Reflects.put {entry : String × RuleSetting} {rule : Builtin} {built : Rule}
    (sofar : Reflects default entries registry) (attempted : attempt? default entry = some (rule, .ok built)) :
    Reflects default (entries ++ [entry]) (registry.add built) := by
  have accepted : (entries ++ [entry]).filterMap (accepted? default) =
      entries.filterMap (accepted? default) ++ [(rule, built)] := by
    simp [accepted?, attempted]
  have refused : (entries ++ [entry]).filterMap (refused? default) = entries.filterMap (refused? default) := by
    simp [refused?, attempted]
  obtain ⟨-, primary, secondary, -, made⟩ := attemptExact.mp attempted
  have same : built.id = rule.id := buildId made
  refine ⟨?_, ?_, fun other => ?_, refused ▸ sofar.invalid⟩
  · rw [add, replacedIds]
    split
    · exact sofar.distinct
    · next fresh => exact sofar.distinct.append (List.nodup_singleton _) (by simpa using fresh)
  · rw [add, replacedIds, accepted, List.map_append, List.map_singleton, firstsAppend, sofar.ids, same]
    simp only [List.mem_eraseDups]
  · rw [add, get?, replacedFound, accepted, List.reverse_append, List.reverse_singleton, List.singleton_append,
      List.lookup_cons, same]
    by_cases own : other = rule
    · simp [own]
    · rw [if_neg fun equal => own (idInjective equal.symm), beq_eq_false_iff_ne.mpr own]
      exact sofar.last other

theorem Reflects.step (sofar : Reflects default entries registry) (entry : String × RuleSetting) :
    Reflects default (entries ++ [entry]) (registry.take (attempt? default entry)) := by
  rcases attempted : attempt? default entry with - | ⟨rule, error | built⟩
  · simpa [refused?, attempted, take] using sofar.pass entry (by rw [accepted?, attempted])
  · simpa [refused?, attempted, take] using sofar.pass entry (by rw [accepted?, attempted])
  · exact sofar.put attempted

theorem Reflects.run {rest : List (String × RuleSetting)} (sofar : Reflects default entries registry)
    (known : ∀ entry ∈ rest, Known entry.1) :
    ∃ result, rest.foldlM (fun (registry : Registry) entry => registry.configure default entry.1 entry.2) registry =
      .ok result ∧ Reflects default (entries ++ rest) result := by
  induction rest generalizing entries registry with
  | nil => exact ⟨registry, rfl, by rwa [List.append_nil]⟩
  | cons entry rest ih =>
    obtain ⟨⟨rule, spelled⟩, others⟩ := List.forall_mem_cons.mp known
    obtain ⟨result, ok, whole⟩ := ih (sofar.step entry) others
    refine ⟨result, ?_, by rwa [List.append_cons]⟩
    rw [List.foldlM_cons, configureSpelled spelled]
    exact ok

theorem reflectsNone (default : Severity) : Reflects default [] {} := ⟨.nil, rfl, fun _ => rfl, rfl⟩

theorem ofConfigKnown {config : Config} (known : ∀ entry ∈ config.rules, Known entry.1) :
    ∃ registry, ofConfig config = .ok registry ∧ Reflects config.defaultSeverity config.rules registry :=
  (reflectsNone config.defaultSeverity).run known

theorem ofConfigUnknown {config : Config} {front back : List (String × RuleSetting)} {name : String}
    {setting : RuleSetting} (whole : config.rules = front ++ (name, setting) :: back)
    (known : ∀ entry ∈ front, Known entry.1) (unknown : ¬ Known name) :
    ofConfig config = .error ⟨fullName name⟩ := by
  obtain ⟨registry, ok, -⟩ := (reflectsNone config.defaultSeverity).run known
  have step : registry.configure config.defaultSeverity name setting = .error ⟨fullName name⟩ := by
    unfold configure
    rw [ofNameUnknown unknown]
  unfold ofConfig
  simp only [whole, List.foldlM_append, ok, List.foldlM_cons, step, bind, Except.bind]

theorem firstUnknown (unknown : ∃ entry ∈ entries, ¬ Known entry.1) :
    ∃ front name setting back, entries = front ++ (name, setting) :: back ∧
      (∀ entry ∈ front, Known entry.1) ∧ ¬ Known name := by
  induction entries with
  | nil => simp at unknown
  | cons entry rest ih =>
    by_cases known : Known entry.1
    · have later : ∃ own ∈ rest, ¬ Known own.1 := by
        obtain ⟨own, inside, unknown⟩ := unknown
        rcases List.mem_cons.mp inside with rfl | further
        · exact absurd known unknown
        · exact ⟨own, further, unknown⟩
      obtain ⟨front, name, setting, back, rfl, early, first⟩ := ih later
      exact ⟨entry :: front, name, setting, back, rfl, List.forall_mem_cons.mpr ⟨known, early⟩, first⟩
    · exact ⟨[], entry.1, entry.2, rest, rfl, by simp, known⟩

theorem Reflects.present (reflects : Reflects default entries registry) (rule : Builtin) :
    (∃ own ∈ registry.rules, own.id = rule.id) ↔
      ∃ entry ∈ entries, entry.1 ∈ rule.spellings ∧ ∃ primary secondary built,
        entry.2.Gives primary secondary ∧ rule.build primary secondary default = .ok built := by
  rw [← List.mem_map, reflects.ids, List.mem_eraseDups, List.mem_map]
  constructor
  · rintro ⟨⟨own, built⟩, inside, same⟩
    obtain rfl := idInjective same
    obtain ⟨entry, listed, accepted⟩ := List.mem_filterMap.mp inside
    obtain ⟨spelled, primary, secondary, given, made⟩ := attemptExact.mp (acceptedExact.mp accepted)
    exact ⟨entry, listed, spelled, primary, secondary, built, given, made⟩
  · rintro ⟨entry, listed, spelled, primary, secondary, built, given, made⟩
    have accepted : accepted? default entry = some (rule, built) :=
      acceptedExact.mpr (attemptExact.mpr ⟨spelled, primary, secondary, given, made⟩)
    exact ⟨(rule, built), List.mem_filterMap.mpr ⟨entry, listed, accepted⟩, rfl⟩

/- The last entry that builds a rule is met first in the reversed list; of equal identifiers only the first
one stays. -/
theorem configuredExactly (config : Config) :
    (∀ setting : RuleSetting, (setting.options? = none ↔ setting.Off) ∧ ∀ primary secondary,
      setting.options? = some (primary, secondary) ↔ setting.Gives primary secondary) ∧
    ((∃ error, ofConfig config = .error error) ↔ ∃ entry ∈ config.rules, ¬ Known entry.1) ∧
    (∀ error, ofConfig config = .error error → ∃ front name setting back,
      config.rules = front ++ (name, setting) :: back ∧ (∀ entry ∈ front, Known entry.1) ∧ ¬ Known name ∧
        error.name = fullName name) ∧
    ∀ registry, ofConfig config = .ok registry →
      let accepted := config.rules.filterMap (accepted? config.defaultSeverity)
      (registry.rules.map Rule.id).Nodup ∧
      (∀ rule : Builtin, (∃ own ∈ registry.rules, own.id = rule.id) ↔
        ∃ entry ∈ config.rules, entry.1 ∈ rule.spellings ∧ ∃ primary secondary built,
          entry.2.Gives primary secondary ∧
            rule.build primary secondary config.defaultSeverity = .ok built) ∧
      (∀ rule : Builtin, registry.get? rule.id = accepted.reverse.lookup rule) ∧
      registry.rules.map Rule.id = (accepted.map fun own => own.1.id).eraseDups ∧
      registry.invalid = config.rules.filterMap (refused? config.defaultSeverity) := by
  refine ⟨fun _ => ⟨RuleSetting.offExact, fun _ _ => RuleSetting.givesExact⟩, ?_⟩
  by_cases unknown : ∃ entry ∈ config.rules, ¬ Known entry.1
  · obtain ⟨front, name, setting, back, whole, early, first⟩ := firstUnknown unknown
    have failed := ofConfigUnknown whole early first
    refine ⟨⟨fun _ => unknown, fun _ => ⟨_, failed⟩⟩, fun error same => ?_, fun registry ok => ?_⟩
    · rw [failed] at same
      exact ⟨front, name, setting, back, whole, early, first, by rw [← Except.error.inj same]⟩
    · rw [failed] at ok
      cases ok
  · have known : ∀ entry ∈ config.rules, Known entry.1 := by simpa using unknown
    obtain ⟨registry, built, reflects⟩ := ofConfigKnown known
    refine ⟨⟨?_, fun some => absurd some unknown⟩, ?_, ?_⟩
    · rintro ⟨error, failed⟩
      rw [built] at failed
      cases failed
    · intro error failed
      rw [built] at failed
      cases failed
    · intro own ok accepted
      rw [built] at ok
      obtain rfl := Except.ok.inj ok
      exact ⟨reflects.distinct, reflects.present, reflects.last, reflects.ids, reflects.invalid⟩

def twiceNamed : Config := ⟨.info, [
  ("aurora/declaration-property-value-no-magic", .primary (.string "hex")),
  ("aurora/selector-nested-combinator-position",
    .withOptions (.string "as-prefix") (.object [("severity", .string "error")])),
  ("declaration-property-value-no-magic", .primary (.object [])),
  ("selector-nested-combinator-position", .primary (.string "as-prefix"))]⟩

theorem configuredTwiceNamed : ∃ registry, ofConfig twiceNamed = .ok registry ∧
    (registry.rules.map Rule.id).Nodup ∧
    registry.rules.map (fun rule => (rule.id, rule.severity)) =
      [(CombinatorRule.id, .info), (MagicRule.id, .info)] ∧
    registry.invalid.length = 1 := by
  have view : (ofConfig twiceNamed).toOption.map (fun registry =>
      (registry.rules.map fun rule => (rule.id, rule.severity), registry.invalid.length)) =
        some ([(CombinatorRule.id, .info), (MagicRule.id, .info)], 1) := by decide
  obtain ⟨-, -, -, built⟩ := configuredExactly twiceNamed
  cases made : ofConfig twiceNamed with
  | error error => simp [made, Except.toOption] at view
  | ok registry =>
    obtain ⟨distinct, -⟩ := built registry made
    simp only [made, Except.toOption, Option.map_some, Option.some.injEq, Prod.mk.injEq] at view
    exact ⟨registry, rfl, distinct, view.1, view.2⟩

end Registry
end SheetLint
