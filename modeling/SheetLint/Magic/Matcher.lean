import SheetLint.Config.Error
import SheetLint.Config.Options
import SheetLint.Edit
import SheetLint.Magic.Engine
import SheetLint.Value.Parse

/-!
Matchers: where a magic value stands in the value of a declaration, and what it becomes.
-/
namespace SheetLint

inductive Strategy where
  | word
  | color (reference : Rgba)
  | familyName
  deriving DecidableEq, Repr

inductive PropFilter where
  | name (name : String)
  | pattern (pattern : Pattern)
  deriving Repr

namespace PropFilter

def isPlainName (text : List Char) : Bool :=
  !text.isEmpty && text.all fun c => c.isAlpha || c == '-'

def read (text : String) (engine : Engine := .own) : Except ConfigError PropFilter :=
  if isPlainName text.toList then .ok (name text)
  else
    match engine.pattern? ("(?i)" ++ text) with
    | some found => .ok (pattern found)
    | none => .error (.unreadablePattern text)

def admits (prop : String) (filter : PropFilter) (engine : Engine := .own) : Bool :=
  match filter with
  | name own => Text.sameIgnoringCase own.toList prop.toList
  | pattern own => engine.matchesPattern own prop

end PropFilter

structure Matcher where
  key : String
  strategy : Strategy
  prop : Option PropFilter := none
  replacement : Option String := none
  uses : Uses := []
  deriving Repr

namespace Matcher

def strategyFor (key : String) (form : MatchForm) (engine : Engine := .own) : Except ConfigError Strategy :=
  match form with
  | .word => if engine.buildsWord key then .ok .word else .error (.unusableWord key)
  | .familyName => .ok .familyName
  | .color =>
    match engine.color? key with
    | some reference => .ok (.color reference)
    | none => .error (.notAColor key)

def filterFor (prop : Option String) (engine : Engine := .own) : Except ConfigError (Option PropFilter) :=
  match prop with
  | none => .ok none
  | some text => (PropFilter.read text engine).map some

def build (key : String) (options : MatcherOptions) (engine : Engine := .own) :
    Except ConfigError Matcher := do
  let strategy ← strategyFor key (options.form.getD .word) engine
  let prop ← filterFor options.prop engine
  return { key, strategy, prop,
           replacement := options.replacement.filter fun text => !text.isEmpty
           uses := options.uses.getD [] }

def isFixable (matcher : Matcher) : Bool := matcher.replacement.isSome

def appliesTo (matcher : Matcher) (prop : String) (engine : Engine := .own) : Bool :=
  match matcher.prop with
  | none => true
  | some filter => filter.admits prop engine

def test (matcher : Matcher) (value : String) (engine : Engine := .own) : Bool :=
  match matcher.strategy with
  | .word => engine.findsWord matcher.key value
  | .color _ => engine.hintsColor value.toList
  | .familyName => Text.occursIn matcher.key.toList value.toList

def isColorNode : ValueNode → Bool
  | .leaf .word text _ => text.toList.head? == some '#'
  | .call name _ _ _ _ _ =>
    let lower := name.toList.map Char.toLower
    Text.occursIn ['r', 'g', 'b'] lower || Text.occursIn ['h', 's', 'l'] lower
  | _ => false

def isColor (matcher : Matcher) (reference : Rgba) (node : ValueNode) (engine : Engine := .own) : Bool :=
  isColorNode node && matcher.replacement != some node.render &&
    engine.color? node.render == some reference

def locateColors (matcher : Matcher) (reference : Rgba) (nodes : List ValueNode)
    (engine : Engine := .own) : List ByteRange :=
  let isHit (node : ValueNode) := matcher.isColor reference node engine
  ((ValueNode.visitAll (fun node => !isHit node) nodes).filter isHit).map ValueNode.range

def groupRange? (nodes : List ValueNode) : Option ByteRange :=
  match nodes.head?, nodes.getLast? with
  | some first, some last => some ⟨first.range.start, last.range.stop⟩
  | _, _ => none

def locateFamily (matcher : Matcher) (nodes : List ValueNode) : List ByteRange :=
  ((ValueNode.splitOnDivider "," nodes).filter fun group =>
    ValueNode.unquoteAll group == matcher.key).filterMap groupRange?

def locate (matcher : Matcher) (nodes : List ValueNode) (engine : Engine := .own) :
    Option (List ByteRange) :=
  match matcher.strategy with
  | .word => none
  | .color reference => some (matcher.locateColors reference nodes engine)
  | .familyName => some (matcher.locateFamily nodes)

def execute (matcher : Matcher) (value : String) (engine : Engine := .own) : List ByteRange :=
  if matcher.test value engine then
    (matcher.locate (parseValue value) engine).getD [⟨0, Text.byteSize value.toList⟩]
  else []

def replace (matcher : Matcher) (part : String) (engine : Engine := .own) : Option String :=
  matcher.replacement.map fun replacement =>
    match matcher.strategy with
    | .word => engine.replaceWord matcher.key replacement part
    | _ => replacement

def fix (matcher : Matcher) (value : String) (engine : Engine := .own) : Except EditError String :=
  replaceRanges value (matcher.execute value engine) fun part => (matcher.replace part engine).getD part

end Matcher
end SheetLint
