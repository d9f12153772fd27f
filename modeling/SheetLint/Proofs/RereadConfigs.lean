import Mathlib
import SheetLint.Config.Basic

/-! Configurations written and read again. A setting is told by its shape alone, so not every one can be
read back from what is written for it; those that reading gives can, and with ascending names the whole
configuration is what it was. -/
namespace SheetLint

/-! ## Ascending keys -/

section
variable {α : Type}

def Ascending (pairs : List (String × α)) : Prop := pairs.Pairwise fun a b => a.1 < b.1

theorem insertMem {key : String} {value : α} {pairs : List (String × α)} {pair : String × α}
    (inside : pair ∈ insertKey key value pairs) : pair = (key, value) ∨ pair ∈ pairs := by
  induction pairs with
  | nil => exact .inl (List.mem_singleton.mp inside)
  | cons own rest ih =>
    rw [insertKey] at inside
    split at inside
    · exact List.mem_cons.mp inside
    · split at inside
      · exact (List.mem_cons.mp inside).imp_right (List.mem_cons_of_mem _)
      · rcases List.mem_cons.mp inside with rfl | further
        · exact .inr List.mem_cons_self
        · exact (ih further).imp_right (List.mem_cons_of_mem _)

theorem insertAscending {pairs : List (String × α)} (ascend : Ascending pairs) (key : String) (value : α) :
    Ascending (insertKey key value pairs) := by
  induction ascend with
  | nil => exact .cons (by simp) .nil
  | @cons own rest first others ih =>
    rw [insertKey]
    split
    · next less =>
      refine .cons (fun pair inside => ?_) (.cons first others)
      rcases List.mem_cons.mp inside with rfl | further
      · exact less
      · exact String.lt_trans less (first pair further)
    · next notLess =>
      split
      · next same => exact .cons (fun pair inside => same ▸ first pair inside) others
      · next differs =>
        have greater : own.1 < key := by
          by_contra notGreater
          exact differs (String.le_antisymm (String.not_lt.mp notGreater) (String.not_lt.mp notLess))
        refine .cons (fun pair inside => ?_) ih
        rcases insertMem inside with rfl | further
        · exact greater
        · exact first pair further

theorem insertLast {pairs : List (String × α)} {key : String} {value : α}
    (ascend : Ascending (pairs ++ [(key, value)])) : insertKey key value pairs = pairs ++ [(key, value)] := by
  induction pairs with
  | nil => rfl
  | cons own rest ih =>
    obtain ⟨first, others⟩ := List.pairwise_cons.mp ascend
    have less : own.1 < key := first (key, value) (by simp)
    rw [insertKey, if_neg (String.lt_asymm less), if_neg (fun same => String.lt_irrefl _ (same ▸ less)), ih others,
      List.cons_append]

theorem sortMem (pairs : List (String × α)) : ∀ pair ∈ sortKeys pairs, pair ∈ pairs := by
  refine List.foldlRecOn (motive := fun sorted => ∀ pair ∈ sorted, pair ∈ pairs) pairs _ (by simp) ?_
  intro sorted known own listed pair inside
  rcases insertMem inside with rfl | early
  · exact listed
  · exact known pair early

theorem sortAscending (pairs : List (String × α)) : Ascending (sortKeys pairs) :=
  List.foldlRecOn pairs _ .nil fun _ ascend pair _ => insertAscending ascend pair.1 pair.2

theorem sortSorted {pairs : List (String × α)} (ascend : Ascending pairs) : sortKeys pairs = pairs := by
  have run (sofar rest : List (String × α)) (ascend : Ascending (sofar ++ rest)) :
      rest.foldl (fun sorted pair => insertKey pair.1 pair.2 sorted) sofar = sofar ++ rest := by
    induction rest generalizing sofar with
    | nil => exact (List.append_nil sofar).symm
    | cons own rest ih =>
      rw [List.append_cons] at ascend ⊢
      rw [List.foldl_cons, insertLast (List.pairwise_append.mp ascend).1, ih _ ascend]
  exact run [] pairs ascend

end

/-! ## Canonical values -/

namespace Json

inductive Normal : Json → Prop where
  | null : Normal .null
  | bool (value : Bool) : Normal (.bool value)
  | integer (value : Int) : Normal (.integer value)
  | float (value : Float) : Normal (.float value)
  | string (value : String) : Normal (.string value)
  | array {items : List Json} (each : ∀ item ∈ items, Normal item) : Normal (.array items)
  | object {fields : List (String × Json)} (ascend : Ascending fields)
      (each : ∀ field ∈ fields, Normal field.2) : Normal (.object fields)

theorem canonicalItemsMap (items : List Json) : canonicalItems items = items.map canonical := by
  induction items with
  | nil => rfl
  | cons item rest ih => rw [canonicalItems, ih, List.map_cons]

theorem canonicalFieldsMap (fields : List (String × Json)) :
    canonicalFields fields = fields.map fun field => (field.1, field.2.canonical) := by
  induction fields with
  | nil => rfl
  | cons field rest ih => rw [canonicalFields, ih, List.map_cons]

mutual

theorem canonicalNormal : (value : Json) → value.canonical.Normal
  | null => .null
  | bool value => .bool value
  | integer value => .integer value
  | float value => .float value
  | string value => .string value
  | array items => .array (canonicalItemsNormal items)
  | object fields =>
    .object (sortAscending _) fun field inside => canonicalFieldsNormal fields field (sortMem _ field inside)

theorem canonicalItemsNormal : (items : List Json) → ∀ item ∈ canonicalItems items, item.Normal
  | [] => by simp [canonicalItems]
  | item :: rest => by
    rw [canonicalItems]
    exact List.forall_mem_cons.mpr ⟨canonicalNormal item, canonicalItemsNormal rest⟩

theorem canonicalFieldsNormal : (fields : List (String × Json)) → ∀ field ∈ canonicalFields fields, field.2.Normal
  | [] => by simp [canonicalFields]
  | (key, value) :: rest => by
    rw [canonicalFields]
    exact List.forall_mem_cons.mpr ⟨canonicalNormal value, canonicalFieldsNormal rest⟩

end

theorem Normal.canonical {value : Json} (normal : value.Normal) : value.canonical = value := by
  induction normal with
  | null | bool | integer | float | string => rfl
  | array each ih => rw [Json.canonical, canonicalItemsMap, List.map_congr_left ih, List.map_id']
  | object ascend each ih =>
    have same := List.map_congr_left fun field inside => congrArg (Prod.mk field.1) (ih field inside)
    rw [Json.canonical, canonicalFieldsMap, same, List.map_id', sortSorted ascend]

theorem canonicalBool {value : Json} {flag : Bool} (same : value.canonical = .bool flag) :
    value = .bool flag := by
  cases value with
  | bool own => exact same
  | null | integer | float | string | array | object => simp [Json.canonical] at same

theorem canonicalPair {value first second : Json} (same : value.canonical = .array [first, second]) :
    ∃ x y, value = .array [x, y] := by
  cases value with
  | array items =>
    rw [Json.canonical, canonicalItemsMap, Json.array.injEq] at same
    obtain ⟨x, rest, rfl, -, tail⟩ := List.map_eq_cons_iff.mp same
    obtain ⟨y, none, rfl, -, tail⟩ := List.map_eq_cons_iff.mp tail
    obtain rfl := List.map_eq_nil_iff.mp tail
    exact ⟨x, y, rfl⟩
  | null | bool | integer | float | string | object => simp [Json.canonical] at same

end Json

/-! ## Settings -/

namespace RuleSetting

inductive Plain : RuleSetting → Prop where
  | enabled (value : Bool) : Plain (.enabled value)
  | withOptions {first second : Json} (primary : first.Normal) (secondary : second.Normal) :
      Plain (.withOptions first second)
  | primary {value : Json} (normal : value.Normal) (noFlag : ∀ flag, value ≠ .bool flag)
      (noPair : ∀ first second, value ≠ .array [first, second]) : Plain (.primary value)

theorem ofJsonPlain (value : Json) : (ofJson value).Plain := by
  unfold ofJson
  split
  · exact .enabled _
  · exact .withOptions (Json.canonicalNormal _) (Json.canonicalNormal _)
  · next noFlag noPair =>
    refine .primary (Json.canonicalNormal _) (fun flag same => noFlag flag (Json.canonicalBool same)) ?_
    intro first second same
    obtain ⟨x, y, pair⟩ := Json.canonicalPair same
    exact noPair x y pair

theorem plainExact (setting : RuleSetting) : ofJson setting.toJson = setting ↔ setting.Plain := by
  refine ⟨fun same => same ▸ ofJsonPlain _, fun plain => ?_⟩
  cases plain with
  | enabled value => rfl
  | withOptions primary secondary => rw [toJson, ofJson, primary.canonical, secondary.canonical]
  | primary normal noFlag noPair => rw [toJson, ofJson, normal.canonical] <;> assumption

end RuleSetting

/-! ## Configurations -/

namespace Config

structure Plain (config : Config) : Prop where
  ascend : Ascending config.rules
  each : ∀ rule ∈ config.rules, rule.2.Plain

theorem rulesPlain {value : Option Json} {rules : List (String × RuleSetting)}
    (read : rulesOfJson? value = some rules) : Ascending rules ∧ ∀ rule ∈ rules, rule.2.Plain := by
  unfold rulesOfJson? at read
  split at read
  · cases read
    exact ⟨.nil, by simp⟩
  · next fields =>
    cases read
    refine ⟨sortAscending _, fun rule inside => ?_⟩
    obtain ⟨field, -, rfl⟩ := List.mem_map.mp (sortMem _ rule inside)
    exact RuleSetting.ofJsonPlain field.2
  · cases read

theorem ofPartsPlain {severity rules : Option Json} {config : Config}
    (read : ofParts? severity rules = some config) : config.Plain := by
  simp only [ofParts?, Option.bind_eq_bind, Option.bind_eq_some_iff, Option.pure_def, Option.some.injEq] at read
  obtain ⟨default, -, settings, read, rfl⟩ := read
  obtain ⟨ascend, each⟩ := rulesPlain read
  exact ⟨ascend, each⟩

theorem ofJsonPlain {value : Json} {config : Config} (read : ofJson? value = some config) : config.Plain := by
  unfold ofJson? at read
  split at read
  · split at read
    · exact ofPartsPlain read
    · cases read
  · cases read
    exact ⟨.nil, by simp⟩
  · exact ofPartsPlain read
  · exact ofPartsPlain read
  · cases read

theorem severityReread (severity : Severity) :
    severityOfJson? (some (.string severity.name)) = some severity := by
  cases severity <;> rfl

theorem Plain.rulesReread {config : Config} (plain : config.Plain) :
    rulesOfJson? (some (.object (config.rules.map fun rule => (rule.1, rule.2.toJson)))) =
      some config.rules := by
  have same : ∀ rule ∈ config.rules, (rule.1, RuleSetting.ofJson rule.2.toJson) = rule :=
    fun rule inside => congrArg (Prod.mk rule.1) ((RuleSetting.plainExact rule.2).mpr (plain.each rule inside))
  rw [rulesOfJson?, List.map_map, List.map_congr_left (f := _ ∘ _) same, List.map_id', sortSorted plain.ascend]

theorem ofJsonFields (severity rules : Json) :
    ofJson? (.object [(severityKey, severity), (rulesKey, rules)]) = ofParts? (some severity) (some rules) := by
  have distinct : rulesKey ≠ severityKey := by decide
  have known : knownKeys [(severityKey, severity), (rulesKey, rules)] = true := by simp [knownKeys]
  simp [ofJson?, known, distinct.symm, List.lookup_cons, beq_eq_false_iff_ne.mpr distinct]

theorem plainExact (config : Config) : ofJson? config.toJson = some config ↔ config.Plain := by
  refine ⟨ofJsonPlain, fun plain => ?_⟩
  rw [toJson, ofJsonFields, ofParts?, severityReread, plain.rulesReread]
  rfl

theorem validateSame {given config : Config} (ok : given.validate = .ok config) : given = config := by
  unfold validate at ok
  split at ok
  · cases ok
  · exact Except.ok.inj ok

theorem parseJsonExact {text : String} {config : Config} :
    parseJson text = .ok config ↔
      (∃ value, Json.read? text = some value ∧ ofJson? value = some config) ∧ config.validate = .ok config := by
  rw [← Option.bind_eq_some_iff, parseJson]
  cases read : (Json.read? text).bind ofJson? with
  | none => simp
  | some given =>
    dsimp only
    constructor
    · intro ok
      obtain rfl := validateSame ok
      exact ⟨rfl, ok⟩
    · rintro ⟨same, ok⟩
      rw [Option.some.inj same, ok]

theorem acceptedRereads {text : String} {config : Config} (ok : parseJson text = .ok config) :
    ofJson? config.toJson = some config ∧ config.validate = .ok config ∧
      ∀ written, Json.read? written = some config.toJson → parseJson written = .ok config := by
  obtain ⟨⟨value, -, read⟩, valid⟩ := parseJsonExact.mp ok
  have again : ofJson? config.toJson = some config := (plainExact config).mpr (ofJsonPlain read)
  exact ⟨again, valid, fun written same => parseJsonExact.mpr ⟨⟨_, same, again⟩, valid⟩⟩

def shuffledText : String := "[\"info\",\x7b\"b\":[[1,2],\x7b\"m\":0,\"k\":null,\"m\":[]\x7d],\"a\":[true]\x7d]"

def shuffled : Config where
  defaultSeverity := .info
  rules := [
    ("a", .primary (.array [.bool true])),
    ("b", .withOptions (.array [.integer 1, .integer 2]) (.object [("k", .null), ("m", .array [])]))]

def shuffledWritten : String :=
  "\x7b\"default_severity\":\"info\",\"rules\":\x7b\"a\":[true],\"b\":[[1,2],\x7b\"k\":null,\"m\":[]\x7d]\x7d\x7d"

theorem shuffledValid : shuffled.validate = .ok shuffled := by
  have valid : shuffled.invalidName? = none := by decide
  rw [validate, valid]

theorem shuffledParses : parseJson shuffledText = .ok shuffled := by
  have read : Json.read? shuffledText = some (.array [.string "info", .object [
      ("b", .array [.array [.integer 1, .integer 2], .object [("m", .integer 0), ("k", .null), ("m", .array [])]]),
      ("a", .array [.bool true])]]) := by cbv
  exact parseJsonExact.mpr ⟨⟨_, read, rfl⟩, shuffledValid⟩

theorem acceptedRereadsShuffled :
    parseJson shuffledText = .ok shuffled ∧ ofJson? shuffled.toJson = some shuffled ∧
      shuffled.validate = .ok shuffled ∧ Json.read? shuffledWritten = some shuffled.toJson ∧
      parseJson shuffledWritten = .ok shuffled := by
  have written : Json.read? shuffledWritten = some shuffled.toJson := by cbv
  obtain ⟨again, valid, reread⟩ := acceptedRereads shuffledParses
  exact ⟨shuffledParses, again, valid, written, reread shuffledWritten written⟩

end Config
end SheetLint
