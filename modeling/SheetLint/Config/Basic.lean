import SheetLint.Config.Error
import SheetLint.Json.Read
import SheetLint.Toml.Read

/-!
Configurations: the rules to run, each with its setting, by name. They are read from TOML or JSON.
-/
namespace SheetLint

inductive RuleSetting where
  | enabled (value : Bool)
  | withOptions (primary secondary : Json)
  | primary (value : Json)
  deriving Repr

namespace RuleSetting

def ofJson : Json → RuleSetting
  | .bool value => enabled value
  | .array [first, second] => withOptions first.canonical second.canonical
  | value => primary value.canonical

def toJson : RuleSetting → Json
  | enabled value => .bool value
  | withOptions first second => .array [first, second]
  | primary value => value

def isEnabled : RuleSetting → Bool
  | enabled value => value
  | withOptions first _ => !first.isNull
  | primary value => !value.isNull

def options? (setting : RuleSetting) : Option (Json × Option Json) :=
  if setting.isEnabled then
    match setting with
    | enabled value => some (.bool value, none)
    | withOptions first second => some (first, some second)
    | primary (.array [item]) => some (item, none)
    | primary value => some (value, none)
  else none

end RuleSetting

/-- `rules` ascends by name. -/
structure Config where
  defaultSeverity : Severity := .error
  rules : List (String × RuleSetting) := []
  deriving Repr

namespace Config

def withRule (config : Config) (name : String) (setting : RuleSetting) : Config :=
  { config with rules := insertKey name setting config.rules }

def invalidName? (config : Config) : Option String :=
  (config.rules.find? fun rule => (RuleId.namespaced? rule.1).isNone).map (·.1)

def validate (config : Config) : Except ConfigError Config :=
  match config.invalidName? with
  | some name => .error (.invalidRuleName name)
  | none => .ok config

def severityKey : String := "default_severity"

def rulesKey : String := "rules"

def toJson (config : Config) : Json :=
  .object [(severityKey, .string config.defaultSeverity.name),
    (rulesKey, .object (config.rules.map fun rule => (rule.1, rule.2.toJson)))]

def knownKeys {α : Type} (fields : List (String × α)) : Bool :=
  fields.all fun field => field.1 == severityKey || field.1 == rulesKey

/-! ## From JSON -/

def severityOfJson? : Option Json → Option Severity
  | none => some .error
  | some value => (Severity.ofJson value).toOption

def rulesOfJson? : Option Json → Option (List (String × RuleSetting))
  | none => some []
  | some (.object fields) =>
    some (sortKeys (fields.map fun field => (field.1, RuleSetting.ofJson field.2)))
  | some _ => none

def ofParts? (severity rules : Option Json) : Option Config := do
  return ⟨← severityOfJson? severity, ← rulesOfJson? rules⟩

/-- A configuration is an object without repeated fields, or an array of the fields in order. -/
def ofJson? : Json → Option Config
  | .object fields =>
    if knownKeys fields && decide (fields.map (·.1)).Nodup then
      ofParts? (fields.lookup severityKey) (fields.lookup rulesKey)
    else none
  | .array [] => some {}
  | .array [severity] => ofParts? (some severity) none
  | .array [severity, rules] => ofParts? (some severity) (some rules)
  | _ => none

def parseJson (text : String) : Except ConfigError Config :=
  match (Json.read? text).bind ofJson? with
  | none => .error .malformed
  | some config => config.validate

/-! ## From TOML -/

def isVoid : Toml → Bool
  | .array items => items.isEmpty
  | .tables items => items.isEmpty
  | .table _ fields => fields.isEmpty
  | _ => false

/-- A name, or a table whose first key is a name with nothing under it. An inline table has no other
key. -/
def severityOfToml? : Option Toml → Option Severity
  | none => some .error
  | some (.string name) => Severity.ofName? name
  | some (.table origin ((name, payload) :: rest)) =>
    if isVoid payload && (origin != .inline || rest.isEmpty) then Severity.ofName? name else none
  | some _ => none

def rulesOfToml? : Option Toml → Option (List (String × RuleSetting))
  | none => some []
  | some (.table _ fields) =>
    some (sortKeys (fields.map fun field => (field.1, RuleSetting.ofJson field.2.toJson)))
  | some _ => none

def ofToml? : Toml → Option Config
  | .table _ fields =>
    if knownKeys fields then do
      return ⟨← severityOfToml? (fields.lookup severityKey), ← rulesOfToml? (fields.lookup rulesKey)⟩
    else none
  | _ => none

def parseToml (text : String) : Except ConfigError Config :=
  match (Toml.read? text).bind ofToml? with
  | none => .error .malformed
  | some config => config.validate

end Config
end SheetLint
