import SheetLint.Text.Basic

/-!
The nodes of a declaration value: words, spaces, strings, dividers, comments and calls with their
arguments, each with the byte range it was read from.
-/
namespace SheetLint

structure ByteRange where
  start : Nat
  stop : Nat
  deriving DecidableEq, Repr

inductive LeafKind where
  | word
  | space
  | string (quote : Char) (closed : Bool)
  | divider (before after : String)
  | comment (closed : Bool)
  deriving DecidableEq, Repr

/-- A call has a name, which is empty for bare parentheses, and owns the spaces at the edges of its
arguments. -/
inductive ValueNode where
  | leaf (kind : LeafKind) (text : String) (range : ByteRange)
  | call (name before after : String) (args : List ValueNode) (closed : Bool) (range : ByteRange)
  deriving Repr

def LeafKind.written (text : String) : LeafKind → String
  | .word => text
  | .space => text
  | .string quote closed => quote.toString ++ text ++ (if closed then quote.toString else "")
  | .divider before after => before ++ text ++ after
  | .comment closed => "/*" ++ text ++ (if closed then "*/" else "")

def LeafKind.unquoted (text : String) : LeafKind → String
  | .string _ _ => text
  | kind => kind.written text

namespace ValueNode

def range : ValueNode → ByteRange
  | leaf _ _ range => range
  | call _ _ _ _ _ range => range

def text : ValueNode → String
  | leaf _ text _ => text
  | call name _ _ _ _ _ => name

def args : ValueNode → List ValueNode
  | leaf .. => []
  | call _ _ _ args _ _ => args

def isSpace : ValueNode → Bool
  | leaf .space _ _ => true
  | _ => false

def isDivider (div : String) : ValueNode → Bool
  | leaf (.divider _ _) text _ => text == div
  | _ => false

mutual

def renderWith (leafText : String → LeafKind → String) : ValueNode → String
  | leaf kind text _ => leafText text kind
  | call name before after args closed _ =>
    name ++ "(" ++ before ++ renderAllWith leafText args ++ after ++ (if closed then ")" else "")

def renderAllWith (leafText : String → LeafKind → String) : List ValueNode → String
  | [] => ""
  | node :: rest => renderWith leafText node ++ renderAllWith leafText rest

end

def render (node : ValueNode) : String := node.renderWith fun text kind => kind.written text

def renderAll (nodes : List ValueNode) : String :=
  renderAllWith (fun text kind => kind.written text) nodes

def unquoteAll (nodes : List ValueNode) : String :=
  renderAllWith (fun text kind => kind.unquoted text) nodes

mutual

def visit (descend : ValueNode → Bool) : ValueNode → List ValueNode
  | leaf kind text range => [leaf kind text range]
  | call name before after args closed range =>
    let node := call name before after args closed range
    node :: (if descend node then visitAll descend args else [])

def visitAll (descend : ValueNode → Bool) : List ValueNode → List ValueNode
  | [] => []
  | node :: rest => visit descend node ++ visitAll descend rest

end

def groups (div : String) : List ValueNode → List (List ValueNode)
  | [] => [[]]
  | node :: rest =>
    if node.isDivider div then [] :: groups div rest
    else match groups div rest with
      | [] => [[node]]
      | group :: more => (node :: group) :: more

def trimSpaces (nodes : List ValueNode) : List ValueNode :=
  ((nodes.dropWhile isSpace).reverse.dropWhile isSpace).reverse

def splitOnDivider (div : String) (nodes : List ValueNode) : List (List ValueNode) :=
  (groups div nodes).map trimSpaces

end ValueNode
end SheetLint
