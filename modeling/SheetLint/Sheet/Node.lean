import SheetLint.Position

/-!
The nodes of a style sheet. A node has a kind with its payload, the layout around it that is needed to
print it back unchanged, and the place where it was read.
-/
namespace SheetLint

inductive Kind where
  | root
  | rule (selector : String)
  | declaration (prop value : String) (important : Bool)
  | atRule (name params : String) (block : Bool)
  | comment (text : String) (inline : Bool)
  deriving DecidableEq, Repr

/-- Layout: `before` stands in front of the node; `between` separates selector and `{`, property and
value, or parameters and what ends them; `after` stands before `}` or `;`; `afterName` separates an
at-rule's name from its parameters; `important` is the flag as written. -/
structure Raws where
  before : String := ""
  between : String := ""
  after : String := ""
  afterName : String := ""
  important : String := ""
  semicolon : Bool := false
  deriving DecidableEq, Repr

structure NodeData where
  kind : Kind
  raws : Raws := {}
  span : Option Span := none
  deriving DecidableEq, Repr

namespace NodeData

def root : NodeData := ⟨.root, {}, none⟩

def rule (selector : String) : NodeData :=
  ⟨.rule selector, { between := " " }, none⟩

def declaration (prop value : String) : NodeData :=
  ⟨.declaration prop value false, { between := ": ", semicolon := true }, none⟩

def atRule (name params : String) : NodeData :=
  ⟨.atRule name params false,
    { afterName := if params.isEmpty then "" else " ", semicolon := true }, none⟩

def withBefore (node : NodeData) (before : String) : NodeData :=
  { node with raws := { node.raws with before } }

def isContainer (node : NodeData) : Bool :=
  match node.kind with
  | .root | .rule _ => true
  | .atRule _ _ block => block
  | _ => false

def isRule (node : NodeData) : Bool :=
  match node.kind with
  | .rule _ => true
  | _ => false

def isDeclaration (node : NodeData) : Bool :=
  match node.kind with
  | .declaration .. => true
  | _ => false

def isAtRuleNamed (node : NodeData) (name : String) : Bool :=
  match node.kind with
  | .atRule own _ _ => Text.sameIgnoringCase own.toList name.toList
  | _ => false

def selector? (node : NodeData) : Option String :=
  match node.kind with
  | .rule selector => some selector
  | _ => none

def parts? (node : NodeData) : Option (String × String) :=
  match node.kind with
  | .declaration prop value _ => some (prop, value)
  | _ => none

def params? (node : NodeData) : Option String :=
  match node.kind with
  | .atRule _ params _ => some params
  | _ => none

def setSelector (selector : String) (node : NodeData) : NodeData :=
  match node.kind with
  | .rule _ => { node with kind := .rule selector }
  | _ => node

def setValue (value : String) (node : NodeData) : NodeData :=
  match node.kind with
  | .declaration prop _ important => { node with kind := .declaration prop value important }
  | _ => node

def setImportant (important : Bool) (node : NodeData) : NodeData :=
  match node.kind with
  | .declaration prop value _ => { node with kind := .declaration prop value important }
  | _ => node

def setBlock (block : Bool) (node : NodeData) : NodeData :=
  match node.kind with
  | .atRule name params _ => { node with kind := .atRule name params block }
  | _ => node

end NodeData
end SheetLint
