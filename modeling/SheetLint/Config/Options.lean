import SheetLint.Config.Shape

/-!
The options of the built-in rules.
-/
namespace SheetLint

/-! ## Magic values -/

inductive MatchForm where
  | word
  | color
  | familyName
  deriving DecidableEq, Repr

def MatchForm.ofName (name : String) : MatchForm :=
  if name == "<color>" then .color
  else if name == "<family-name>" then .familyName
  else .word

def MatchForm.name : MatchForm → String
  | .word => ""
  | .color => "<color>"
  | .familyName => "<family-name>"

abbrev Uses := List (String × String)

/-- What is known about a magic value. `prop` limits the properties it is looked for in; a value without
replacement is reported and never fixed; `uses` are the modules that the replacement needs. -/
structure MatcherOptions where
  prop : Option String := none
  form : Option MatchForm := none
  replacement : Option String := none
  uses : Option Uses := none
  deriving DecidableEq, Repr

inductive MatcherEntry where
  | toggle (enabled : Bool)
  | replacement (text : String)
  | options (options : MatcherOptions)
  deriving DecidableEq, Repr

namespace MatcherOptions

def fields : List (Shape.Field MatcherOptions) := [
  ⟨"prop", fun value options => do return { options with prop := ← Shape.optional Shape.string value }⟩,
  ⟨"syntax", fun value options => do
    let name ← Shape.optional Shape.string value
    return { options with form := name.map MatchForm.ofName }⟩,
  ⟨"replacement", fun value options => do
    return { options with replacement := ← Shape.optional Shape.string value }⟩,
  ⟨"uses", fun value options => do
    return { options with uses := ← Shape.optional (Shape.map Shape.string) value }⟩]

def ofJson : Json → Except ShapeError MatcherOptions :=
  Shape.record "matcher options" fields {}

def toJson (options : MatcherOptions) : Json :=
  let field {α : Type} (name : String) (write : α → Json) : Option α → List (String × Json)
    | some value => [(name, write value)]
    | none => []
  .object (field "prop" .string options.prop ++
    field "syntax" (fun form => .string form.name) options.form ++
    field "replacement" .string options.replacement ++
    field "uses" (fun uses => .object (uses.map fun entry => (entry.1, .string entry.2))) options.uses)

end MatcherOptions

namespace MatcherEntry

def ofJson : Json → Except ShapeError MatcherEntry
  | .bool enabled => .ok (toggle enabled)
  | .string text => .ok (replacement text)
  | value =>
    match MatcherOptions.ofJson value with
    | .ok given => .ok (options given)
    | .error _ => .error .notAMatcher

def isEnabled : MatcherEntry → Bool
  | toggle enabled => enabled
  | replacement text => !text.isEmpty
  | options _ => true

def toOptions : MatcherEntry → MatcherOptions
  | toggle _ => {}
  | replacement text => { replacement := some text }
  | options given => given

end MatcherEntry

def MatcherEntry.tableOfJson : Json → Except ShapeError (List (String × MatcherEntry)) :=
  Shape.map MatcherEntry.ofJson

structure MagicOptions where
  severity : Option Severity := none
  deriving DecidableEq, Repr

def MagicOptions.ofJson : Json → Except ShapeError MagicOptions :=
  Shape.record "struct MagicValueOptions"
    [⟨"severity", fun value options => do
      return { options with severity := ← Shape.optional Severity.ofJson value }⟩] {}

/-! ## Combinators -/

inductive Expectation where
  | asPrefix
  deriving DecidableEq, Repr

def Expectation.name : Expectation → String
  | .asPrefix => "as-prefix"

def Expectation.ofJson : Json → Except ShapeError Expectation :=
  Shape.variant [(Expectation.asPrefix.name, .asPrefix)]

structure CombinatorOptions where
  includes : Option (List String) := none
  severity : Option Severity := none
  deriving DecidableEq, Repr

def CombinatorOptions.ofJson : Json → Except ShapeError CombinatorOptions :=
  Shape.record "struct CombinatorOptions"
    [⟨"includes", fun value options => do
      return { options with includes := ← Shape.optional (Shape.list Shape.string) value }⟩,
     ⟨"severity", fun value options => do
      return { options with severity := ← Shape.optional Severity.ofJson value }⟩] {}

end SheetLint
