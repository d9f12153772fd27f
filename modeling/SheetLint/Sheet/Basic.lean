import SheetLint.Forest
import SheetLint.Sheet.Node

/-!
Style sheets: a root and the forest below it. Every node carries an identifier that no other node of
the sheet has had before, and the operations name nodes by it.
-/
namespace SheetLint

abbrev NodeId := Nat

structure Node where
  id : NodeId
  data : NodeData
  deriving DecidableEq, Repr

namespace Forest

def find? (id : NodeId) : Forest Node → Option (NodeData × Forest Node)
  | nil => none
  | cons node children next =>
    if node.id = id then some (node.data, children)
    else (find? id children).or (find? id next)

def parentOf? (id above : NodeId) : Forest Node → Option NodeId
  | nil => none
  | cons node children next =>
    if node.id = id then some above
    else (parentOf? id node.id children).or (parentOf? id above next)

def modify (id : NodeId) (f : NodeData → NodeData) (forest : Forest Node) : Forest Node :=
  forest.map fun node => if node.id = id then { node with data := f node.data } else node

def appendTo (parent : NodeId) (tree : Forest Node) : Forest Node → Forest Node
  | nil => nil
  | cons node children next =>
    if node.id = parent then cons node (children ++ tree) next
    else cons node (appendTo parent tree children) (appendTo parent tree next)

def insertBefore (ref : NodeId) (tree : Forest Node) : Forest Node → Forest Node
  | nil => nil
  | cons node children next =>
    if node.id = ref then tree ++ cons node children next
    else cons node (insertBefore ref tree children) (insertBefore ref tree next)

def erase (id : NodeId) : Forest Node → Forest Node
  | nil => nil
  | cons node children next =>
    if node.id = id then erase id next
    else cons node (erase id children) (erase id next)

def ids (forest : Forest Node) : List NodeId := forest.labels.map Node.id

end Forest

structure Sheet where
  root : NodeData := .root
  body : Forest Node := .nil
  fresh : NodeId := 1
  deriving DecidableEq, Repr

namespace Sheet

def rootId : NodeId := 0

def empty : Sheet := {}

def find? (sheet : Sheet) (id : NodeId) : Option (NodeData × Forest Node) :=
  if id = rootId then some (sheet.root, sheet.body) else sheet.body.find? id

def get? (sheet : Sheet) (id : NodeId) : Option NodeData := (sheet.find? id).map (·.1)

def contains (sheet : Sheet) (id : NodeId) : Bool := (sheet.find? id).isSome

def below (sheet : Sheet) (id : NodeId) : Forest Node :=
  match sheet.find? id with
  | some (_, children) => children
  | none => .nil

def children (sheet : Sheet) (id : NodeId) : List NodeId := (sheet.below id).roots.map Node.id

def parent? (sheet : Sheet) (id : NodeId) : Option NodeId :=
  if id = rootId then none else sheet.body.parentOf? id rootId

def index? (sheet : Sheet) (id : NodeId) : Option Nat :=
  (sheet.parent? id).bind fun parent => (sheet.children parent).idxOf? id

def walk (sheet : Sheet) (id : NodeId) : List NodeId := (sheet.below id).ids

def rules (sheet : Sheet) : List NodeId :=
  (sheet.body.labels.filter fun node => node.data.isRule).map Node.id

def declarations (sheet : Sheet) : List NodeId :=
  (sheet.body.labels.filter fun node => node.data.isDeclaration).map Node.id

def size (sheet : Sheet) : Nat := 1 + sheet.body.size

def isEmpty (sheet : Sheet) : Bool := sheet.body.isEmpty

def modify (sheet : Sheet) (id : NodeId) (f : NodeData → NodeData) : Sheet :=
  if id = rootId then { sheet with root := f sheet.root }
  else { sheet with body := sheet.body.modify id f }

private def leaf (id : NodeId) (data : NodeData) : Forest Node := .cons ⟨id, data⟩ .nil .nil

def append? (sheet : Sheet) (parent : NodeId) (data : NodeData) : Option (NodeId × Sheet) :=
  match sheet.get? parent with
  | none => none
  | some above =>
    if above.isContainer then
      let tree := leaf sheet.fresh data
      let body :=
        if parent = rootId then sheet.body ++ tree else .appendTo parent tree sheet.body
      some (sheet.fresh, { sheet with body, fresh := sheet.fresh + 1 })
    else none

def insertBefore? (sheet : Sheet) (ref : NodeId) (data : NodeData) : Option (NodeId × Sheet) :=
  match sheet.parent? ref with
  | none => none
  | some _ =>
    let body := .insertBefore ref (leaf sheet.fresh data) sheet.body
    some (sheet.fresh, { sheet with body, fresh := sheet.fresh + 1 })

def isBelow (sheet : Sheet) (above id : NodeId) : Bool := (sheet.walk above).contains id

def moveBefore? (sheet : Sheet) (ref id : NodeId) : Option Sheet :=
  if ref = id || sheet.isBelow id ref then none
  else
    match sheet.find? id, sheet.parent? ref with
    | some (data, children), some _ =>
      let body := .insertBefore ref (.cons ⟨id, data⟩ children .nil) (sheet.body.erase id)
      some { sheet with body }
    | _, _ => none

def remove? (sheet : Sheet) (id : NodeId) : Option (NodeData × Sheet) :=
  if id = rootId then none
  else
    match sheet.find? id with
    | none => none
    | some (data, _) => some (data, { sheet with body := sheet.body.erase id })

end Sheet
end SheetLint
