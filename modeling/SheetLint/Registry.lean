import SheetLint.Combinator.Rule
import SheetLint.Config.Basic
import SheetLint.Magic.Rule

/-!
The rules that a configuration switches on, in the order in which they run.
-/
namespace SheetLint

structure UnknownRule where
  name : String
  deriving DecidableEq, Repr

def UnknownRule.message (error : UnknownRule) : String := "Rule not found: " ++ error.name

inductive Builtin where
  | magic
  | combinator
  deriving DecidableEq, Repr

namespace Builtin

def all : List Builtin := [magic, combinator]

def id : Builtin → RuleId
  | magic => MagicRule.id
  | combinator => CombinatorRule.id

def build (primary : Json) (secondary : Option Json) (default : Severity) :
    Builtin → Except ConfigError Rule
  | magic => (MagicRule.ofOptions primary secondary default).map MagicRule.toRule
  | combinator => (CombinatorRule.ofOptions primary secondary default).map CombinatorRule.toRule

def ofName (name : String) : Except UnknownRule Builtin :=
  match RuleId.namespaced? name with
  | none => .error ⟨name⟩
  | some id =>
    match all.find? fun rule => rule.id == id with
    | some rule => .ok rule
    | none => .error ⟨id.text⟩

end Builtin

/-- No two rules have the same name. Rules with invalid options do not run; `invalid` says why. -/
structure Registry where
  rules : List Rule := []
  invalid : List ConfigError := []

namespace Registry

def replaceOrAppend (rule : Rule) : List Rule → List Rule
  | [] => [rule]
  | own :: rest => if own.id = rule.id then rule :: rest else own :: replaceOrAppend rule rest

def add (registry : Registry) (rule : Rule) : Registry :=
  { registry with rules := replaceOrAppend rule registry.rules }

def get? (registry : Registry) (id : RuleId) : Option Rule :=
  registry.rules.find? fun rule => rule.id == id

def configure (default : Severity) (registry : Registry) (name : String) (setting : RuleSetting) :
    Except UnknownRule Registry :=
  match Builtin.ofName name with
  | .error error => .error error
  | .ok rule =>
    match setting.options? with
    | none => .ok registry
    | some (primary, secondary) =>
      match rule.build primary secondary default with
      | .ok built => .ok (registry.add built)
      | .error error => .ok { registry with invalid := registry.invalid ++ [error] }

def ofConfig (config : Config) : Except UnknownRule Registry :=
  config.rules.foldlM (fun registry rule =>
    registry.configure config.defaultSeverity rule.1 rule.2) {}

end Registry
end SheetLint
