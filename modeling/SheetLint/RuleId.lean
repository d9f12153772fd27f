import SheetLint.Text.Alphanumeric
import SheetLint.Text.Basic

/-!
Names of rules: parts of alphanumeric characters, hyphens and underscores, divided by slashes. Built-in
rules live in one namespace, which a configuration may leave out.
-/
namespace SheetLint

structure RuleId where
  text : String
  deriving DecidableEq, Repr

namespace RuleId

def home : String := "aurora"

def isNameChar (c : Char) : Bool := Text.isAlphanumeric c || c == '-' || c == '_' || c == '/'

def isValid (text : List Char) : Bool :=
  !text.isEmpty && text.head? != some '/' && text.getLast? != some '/' && text.all isNameChar

def ofString? (text : String) : Option RuleId :=
  if isValid text.toList then some ⟨text⟩ else none

def bare (name : String) : String :=
  let mark := (home ++ "/").toList
  if mark.isPrefixOf name.toList then .ofList (name.toList.drop mark.length) else name

def builtin (name : String) : RuleId := ⟨home ++ "/" ++ name⟩

def namespaced? (name : String) : Option RuleId := ofString? (home ++ "/" ++ bare name)

def shortName (id : RuleId) : String :=
  match Text.splitLast? '/' id.text.toList with
  | some (_, name) => .ofList name
  | none => id.text

end RuleId
end SheetLint
