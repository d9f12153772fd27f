import SheetLint.Magic.Imports
import SheetLint.Magic.Matcher
import SheetLint.Rule

/-!
The rule against magic values: values of declarations that a table lists are reported, or replaced and
the modules imported that the replacements need. Every matcher sees what the earlier ones have left.
-/
namespace SheetLint

structure MagicRule where
  matchers : List Matcher
  severity : Severity := .error
  deriving Repr

namespace MagicRule

def id : RuleId := .builtin "declaration-property-value-no-magic"

def rejection (found : String) : String := "Unexpected magic value \"" ++ found ++ "\""

/-! ## Options -/

def invalid {α : Type} (part : OptionPart) (error : ShapeError) : Except ConfigError α :=
  .error (.invalidOption id (.shape part error))

def readTable (primary : Json) : Except ConfigError (List (String × MatcherEntry)) :=
  match MatcherEntry.tableOfJson primary with
  | .ok table => .ok table
  | .error error => invalid .magicValues error

def readSecondary : Option Json → Except ConfigError MagicOptions
  | none | some .null => .ok {}
  | some value =>
    match MagicOptions.ofJson value with
    | .ok options => .ok options
    | .error error => invalid .secondary error

def buildMatchers (table : List (String × MatcherEntry)) (engine : Engine := .own) :
    Except ConfigError (List Matcher) :=
  (table.filter fun entry => entry.2.isEnabled).mapM fun entry =>
    Matcher.build entry.1 entry.2.toOptions engine

def ofOptions (primary : Json) (secondary : Option Json) (default : Severity) (engine : Engine := .own) :
    Except ConfigError MagicRule := do
  let table ← readTable primary
  let options ← readSecondary secondary
  let matchers ← buildMatchers table engine
  return ⟨matchers, options.severity.getD default⟩

/-! ## A run -/

structure State where
  sheet : Sheet
  imports : ImportTable
  violations : List Violation := []
  deriving Repr

def violation (rule : MagicRule) (node : NodeData) (found : String) : Violation :=
  ⟨id, rule.severity, rejection found, found, node.span⟩

def shown (value : String) (range : ByteRange) : String :=
  ((Text.slice? value.toList range.start range.stop).map String.ofList).getD value

def State.replace (state : State) (id : NodeId) (value : String) (uses : Uses) : State :=
  let (imports, sheet) := state.imports.ensure (state.sheet.modify id (·.setValue value)) uses
  { state with sheet, imports }

def check (rule : MagicRule) (mode : Mode) (id : NodeId) (state : State) (matcher : Matcher)
    (engine : Engine := .own) : State :=
  match state.sheet.get? id with
  | none => state
  | some node =>
    match node.parts? with
    | none => state
    | some (prop, value) =>
      if matcher.appliesTo prop engine then
        match matcher.execute value engine with
        | [] => state
        | first :: _ =>
          if mode = .fix && matcher.isFixable then
            match matcher.fix value engine with
            | .ok fixed => state.replace id fixed matcher.uses
            | .error _ => state
          else
            let found := rule.violation node (shown value first)
            { state with violations := state.violations ++ [found] }
      else state

def checkAll (rule : MagicRule) (mode : Mode) (state : State) (id : NodeId) (engine : Engine := .own) :
    State :=
  rule.matchers.foldl (fun state matcher => rule.check mode id state matcher engine) state

def run (rule : MagicRule) (mode : Mode) (sheet : Sheet) (engine : Engine := .own) : Outcome :=
  if rule.matchers.isEmpty then ⟨sheet, []⟩
  else
    let last := sheet.declarations.foldl (fun state id => rule.checkAll mode state id engine)
      ⟨sheet, .scan sheet, []⟩
    ⟨last.sheet, last.violations⟩

def toRule (rule : MagicRule) : Rule :=
  ⟨id, "Disallow magic values in declaration values", rule.severity, true,
    fun mode sheet => rule.run mode sheet⟩

end MagicRule
end SheetLint
