import SheetLint.RuleId
import SheetLint.Severity
import SheetLint.Sheet.Basic

/-!
Rules and what they find in a sheet. A rule either reports what is wrong or fixes it; what it does not
fix it reports in both modes.
-/
namespace SheetLint

inductive Mode where
  | report
  | fix
  deriving DecidableEq, Repr

structure Violation where
  rule : RuleId
  severity : Severity
  message : String
  snippet : String
  span : Option Span
  deriving DecidableEq, Repr

def Violation.display (violation : Violation) : String :=
  let place := match violation.span with
    | some span => toString span.start.line ++ ":" ++ toString span.start.column ++ " "
    | none => ""
  place ++ violation.message ++ " (" ++ violation.rule.text ++ ")"

structure Outcome where
  sheet : Sheet
  violations : List Violation := []
  deriving DecidableEq, Repr

structure Rule where
  id : RuleId
  description : String
  severity : Severity
  fixable : Bool
  run : Mode → Sheet → Outcome

end SheetLint
