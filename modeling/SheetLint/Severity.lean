/-!
How grave a violation is.
-/
namespace SheetLint

inductive Severity where
  | error
  | warning
  | info
  deriving DecidableEq, Repr

instance : Inhabited Severity := ⟨.error⟩

def Severity.name : Severity → String
  | .error => "error"
  | .warning => "warning"
  | .info => "info"

def Severity.ofName? (name : String) : Option Severity :=
  [Severity.error, .warning, .info].find? fun severity => severity.name == name

end SheetLint
