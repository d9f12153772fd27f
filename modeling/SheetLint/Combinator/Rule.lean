import SheetLint.Config.Error
import SheetLint.Config.Options
import SheetLint.Rule

/-!
The rule on combinators: a selector must not end in one. To fix it, the combinator moves onto the
selectors of the nested rules; a rule that is left without a selector gives way to its children.
-/
namespace SheetLint

structure CombinatorRule where
  expectation : Expectation := .asPrefix
  combinators : List String
  severity : Severity := .error
  deriving DecidableEq, Repr

namespace CombinatorRule

def id : RuleId := .builtin "selector-nested-combinator-position"

def common : List String := [">", "~", "+"]

def expectationMessage (combinator : String) : String :=
  "Expected combinator \"" ++ combinator ++ "\" to be in the nested form"

def including (includes : List String) (severity : Severity) : CombinatorRule :=
  { combinators := common ++ includes, severity }

/-! ## Options -/

def readExpectation (primary : Json) : Except ConfigError Expectation :=
  match Expectation.ofJson primary with
  | .ok expectation => .ok expectation
  | .error error => .error (.invalidOption id (.shape .expectation error))

def readSecondary : Option Json → Except ConfigError CombinatorOptions
  | none | some .null => .ok {}
  | some value =>
    match CombinatorOptions.ofJson value with
    | .ok options => .ok options
    | .error error => .error (.invalidOption id (.shape .secondary error))

def ofOptions (primary : Json) (secondary : Option Json) (default : Severity) :
    Except ConfigError CombinatorRule := do
  let expectation ← readExpectation primary
  let options ← readSecondary secondary
  let includes := options.includes.getD []
  if includes.any String.isEmpty then .error (.invalidOption id .emptyCombinator)
  else return { including includes (options.severity.getD default) with expectation }

/-! ## Selectors -/

def detect (rule : CombinatorRule) (selector : String) : Option String :=
  rule.combinators.find? fun combinator => combinator.toList.isSuffixOf selector.toList

def prefixBranch (combinator branch : List Char) : List Char :=
  match Text.trimStart branch with
  | [] => branch
  | rest => Text.leading branch ++ combinator ++ ' ' :: rest

def prefixBranches (combinator selector : String) : String :=
  .ofList (List.intercalate [',']
    ((Text.splitOn ',' selector.toList).map (prefixBranch combinator.toList)))

def prefixSelector (combinator : String) (node : NodeData) : NodeData :=
  match node.selector? with
  | some selector => node.setSelector (prefixBranches combinator selector)
  | none => node

def remaining (combinator selector : String) : List Char :=
  let text := selector.toList
  Text.trim (text.take (text.length - combinator.toList.length))

/-! ## A run -/

def dissolve (sheet : Sheet) (id : NodeId) (children : List NodeId) : Sheet :=
  let hoisted := children.foldl (fun sheet child => (sheet.moveBefore? id child).getD sheet) sheet
  ((hoisted.remove? id).map (·.2)).getD hoisted

def relocate (sheet : Sheet) (id : NodeId) (selector combinator : String) : Sheet :=
  let children := sheet.children id
  let moved := children.foldl (fun sheet child => sheet.modify child (prefixSelector combinator)) sheet
  let rest := remaining combinator selector
  if rest.isEmpty || rest == ['&'] then dissolve moved id children
  else moved.modify id (·.setSelector (.ofList rest))

def fault? (rule : CombinatorRule) (node : NodeData) : Option (String × String) :=
  node.selector?.bind fun selector =>
    (rule.detect selector).map fun combinator => (combinator, selector)

def violation (rule : CombinatorRule) (node : NodeData) (combinator : String) : Violation :=
  ⟨id, rule.severity, expectationMessage combinator, combinator, node.span⟩

def check (rule : CombinatorRule) (mode : Mode) (outcome : Outcome) (id : NodeId) : Outcome :=
  match outcome.sheet.get? id with
  | none => outcome
  | some node =>
    match rule.fault? node with
    | none => outcome
    | some (combinator, selector) =>
      if mode = .fix then { outcome with sheet := relocate outcome.sheet id selector combinator }
      else { outcome with violations := outcome.violations ++ [rule.violation node combinator] }

def run (rule : CombinatorRule) (mode : Mode) (sheet : Sheet) : Outcome :=
  sheet.rules.foldl (rule.check mode) ⟨sheet, []⟩

def toRule (rule : CombinatorRule) : Rule :=
  ⟨id, "Require combinators to prefix nested selectors instead of trailing the parent",
    rule.severity, true, rule.run⟩

end CombinatorRule
end SheetLint
