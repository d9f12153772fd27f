import SheetLint.Sheet.Basic

/-!
Printing a sheet from its payloads and layout. A statement that another node follows gets its `;` even
if it was read without one.
-/
namespace SheetLint

def NodeData.body (node : NodeData) (inner : String) : String :=
  "\x7b" ++ inner ++ node.raws.after ++ "\x7d"

def NodeData.flag (node : NodeData) : String :=
  if node.raws.important.isEmpty then " !important" else node.raws.important

/-- The text of a node after its `before`. `last` says that no sibling follows and `inner` is the text
of its children. -/
def NodeData.render (node : NodeData) (last : Bool) (inner : String) : String :=
  let terminate := node.raws.semicolon || !last
  match node.kind with
  | .root => ""
  | .rule selector => selector ++ node.raws.between ++ node.body inner
  | .declaration prop value important =>
    prop ++ node.raws.between ++ value ++ (if important then node.flag else "") ++
      (if terminate then node.raws.after ++ ";" else "")
  | .atRule name params block =>
    "@" ++ name ++ node.raws.afterName ++ params ++
      (if block then node.raws.between ++ node.body inner
        else if terminate then node.raws.between ++ ";" else "")
  | .comment text inline => if inline then "//" ++ text else "/*" ++ text ++ "*/"

namespace Forest

def print : Forest Node → String
  | nil => ""
  | cons node children next =>
    node.data.raws.before ++ node.data.render next.isEmpty children.print ++ next.print

end Forest

def Sheet.print (sheet : Sheet) : String := sheet.body.print ++ sheet.root.raws.after

end SheetLint
