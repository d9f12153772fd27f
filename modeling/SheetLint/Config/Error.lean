import SheetLint.Config.Shape
import SheetLint.RuleId

/-!
What can be wrong with a configuration.
-/
namespace SheetLint

inductive OptionPart where
  | expectation
  | magicValues
  | secondary
  deriving DecidableEq, Repr

def OptionPart.name : OptionPart → String
  | .expectation => "expectation"
  | .magicValues => "magic values"
  | .secondary => "secondary options"

inductive OptionFault where
  | shape (part : OptionPart) (error : ShapeError)
  | emptyCombinator
  deriving DecidableEq, Repr

def OptionFault.message : OptionFault → String
  | shape part error => part.name ++ ": " ++ error.message
  | emptyCombinator => "includes: combinators must not be empty"

inductive ConfigError where
  | malformed
  | invalidRuleName (name : String)
  | invalidOption (rule : RuleId) (fault : OptionFault)
  | notAColor (key : String)
  | unusableWord (key : String)
  | unreadablePattern (pattern : String)
  deriving DecidableEq, Repr

namespace ConfigError

def field? : ConfigError → Option String
  | notAColor key | unusableWord key => some s!"magic value '{key}'"
  | unreadablePattern pattern => some s!"prop '{pattern}'"
  | _ => none

/-- The text of an error; `none` where the words depend on the reader of the text or the pattern. -/
def message? : ConfigError → Option String
  | malformed => none
  | invalidRuleName name => some s!"Invalid configuration syntax: Invalid rule name '{name}'"
  | invalidOption rule fault =>
    some ("Invalid option value for rule " ++ rule.text ++ ": " ++ fault.message)
  | notAColor key => some s!"Invalid pattern for magic value '{key}': not a hex, rgb() or hsl() color"
  | unusableWord _ | unreadablePattern _ => none

end ConfigError
end SheetLint
