import SheetLint.Registry
import SheetLint.Sheet.Parse
import SheetLint.Sheet.Print

/-!
Linting: the rules of a registry run over sheets one after the other, each on what the rules before it
have left.
-/
namespace SheetLint

inductive LintError where
  | config (error : ConfigError)
  | rule (error : UnknownRule)
  | parse (error : ParseError)
  deriving DecidableEq, Repr

def LintError.message? : LintError → Option String
  | config error => error.message?.map ("Configuration error: " ++ ·)
  | rule error => some ("Rule error: " ++ error.message)
  | parse error => some ("Parse error: " ++ error.message)

structure Report where
  violations : List Violation
  invalid : List ConfigError
  output : String
  deriving DecidableEq, Repr

namespace Report

def isClean (report : Report) : Bool := report.violations.isEmpty && report.invalid.isEmpty

def hasErrors (report : Report) : Bool :=
  !report.invalid.isEmpty || report.violations.any fun violation => violation.severity == .error

end Report

namespace Registry

def runRule (mode : Mode) (sofar : Outcome) (rule : Rule) : Outcome :=
  let next := rule.run mode sofar.sheet
  ⟨next.sheet, sofar.violations ++ next.violations⟩

def lintSheet (registry : Registry) (mode : Mode) (sheet : Sheet) : Outcome :=
  registry.rules.foldl (runRule mode) ⟨sheet, []⟩

def lint (registry : Registry) (mode : Mode) (source : String) : Except LintError Report :=
  match Sheet.parse source with
  | .error error => .error (.parse error)
  | .ok sheet =>
    let outcome := registry.lintSheet mode sheet
    .ok ⟨outcome.violations, registry.invalid, outcome.sheet.print⟩

def lintAll (registry : Registry) (mode : Mode) (sources : List String) :
    List (Except LintError Report) :=
  sources.map (registry.lint mode)

def lintRepeatedly (registry : Registry) (mode : Mode) :
    Nat → String → List (Except LintError Report)
  | 0, _ => []
  | count + 1, source =>
    match registry.lint mode source with
    | .error error => [.error error]
    | .ok report => .ok report :: registry.lintRepeatedly mode count report.output

end Registry
end SheetLint
