import SheetLint.Sheet.Parse

/-!
The arena in which a sheet is kept: one map from identifiers to payloads, one to child lists and one to
parents. Every operation changes the maps one after another, and what is asked of the tree as a whole is
found by a loop over them.
-/
namespace SheetLint

structure Slots (α : Type) where
  entries : List (NodeId × α)
  once : (entries.map Prod.fst).Nodup

namespace Slots
variable {α : Type}

def empty : Slots α := ⟨[], List.nodup_nil⟩

def keys (slots : Slots α) : List NodeId := slots.entries.map Prod.fst

def size (slots : Slots α) : Nat := slots.entries.length

def get? (slots : Slots α) (id : NodeId) : Option α := slots.entries.lookup id

def erase (slots : Slots α) (id : NodeId) : Slots α where
  entries := slots.entries.filter fun entry => entry.1 ≠ id
  once := slots.once.sublist (List.filter_sublist.map Prod.fst)

def insert (slots : Slots α) (id : NodeId) (value : α) : Slots α where
  entries := (id, value) :: (slots.erase id).entries
  once := by
    refine List.nodup_cons.mpr ⟨fun listed => ?_, (slots.erase id).once⟩
    obtain ⟨entry, kept, same⟩ := List.mem_map.mp listed
    exact (of_decide_eq_true (List.mem_filter.mp kept).2) same

end Slots

structure Arena where
  nodes : Slots NodeData
  lists : Slots (List NodeId)
  parents : Slots NodeId
  -- no identifier is given out twice, also when its node is gone
  fresh : NodeId

namespace Arena
open Sheet (rootId)

def empty : Arena where
  nodes := Slots.empty.insert rootId .root
  lists := Slots.empty.insert rootId []
  parents := .empty
  fresh := rootId + 1

def get? (arena : Arena) (id : NodeId) : Option NodeData := arena.nodes.get? id

def contains (arena : Arena) (id : NodeId) : Bool := (arena.nodes.get? id).isSome

def size (arena : Arena) : Nat := arena.nodes.size

def parent? (arena : Arena) (id : NodeId) : Option NodeId := arena.parents.get? id

def children (arena : Arena) (id : NodeId) : List NodeId := (arena.lists.get? id).getD []

def isEmpty (arena : Arena) : Bool := (arena.children rootId).isEmpty

def index? (arena : Arena) (id : NodeId) : Option Nat :=
  (arena.parent? id).bind fun parent => (arena.children parent).idxOf? id

def modify (arena : Arena) (id : NodeId) (edit : NodeData → NodeData) : Arena :=
  match arena.nodes.get? id with
  | none => arena
  | some data => { arena with nodes := arena.nodes.insert id (edit data) }

/-! ## Links -/

def alloc (arena : Arena) (data : NodeData) : NodeId × Arena :=
  let lists := if data.isContainer then arena.lists.insert arena.fresh [] else arena.lists
  (arena.fresh,
    { arena with nodes := arena.nodes.insert arena.fresh data, lists, fresh := arena.fresh + 1 })

def placed (id : NodeId) (siblings : List NodeId) : Option Nat → List NodeId
  | some index => if index ≤ siblings.length then siblings.insertIdx index id else siblings ++ [id]
  | none => siblings ++ [id]

-- a node whose payload became a container after it was made has no list before its first child
def attach (arena : Arena) (parent : NodeId) (index : Option Nat) (id : NodeId) : Arena :=
  { arena with
    parents := arena.parents.insert id parent
    lists := arena.lists.insert parent (placed id (arena.children parent) index) }

def detach (arena : Arena) (id : NodeId) : Arena :=
  match arena.parents.get? id with
  | none => arena
  | some parent =>
    { arena with
      parents := arena.parents.erase id
      lists := match arena.lists.get? parent with
        | none => arena.lists
        | some siblings => arena.lists.insert parent (siblings.filter (· ≠ id)) }

def ascend (arena : Arena) (ancestor : NodeId) : Nat → NodeId → Bool
  | 0, _ => false
  | steps + 1, id =>
    match arena.parent? id with
    | none => false
    | some parent => if parent = ancestor then true else ascend arena ancestor steps parent

-- on a tree no way up has more steps than there are nodes
def isAncestor (arena : Arena) (ancestor id : NodeId) : Bool := arena.ascend ancestor arena.size id

/-! ## Walking -/

def visit (arena : Arena) : Nat → List NodeId → List NodeId
  | 0, _ => []
  | _ + 1, [] => []
  | steps + 1, id :: stack => id :: visit arena steps (arena.children id ++ stack)

-- on a tree every node comes off the stack once
def walk (arena : Arena) (id : NodeId) : List NodeId := arena.visit arena.size (arena.children id)

def walkMatching (arena : Arena) (wanted : NodeData → Bool) : List NodeId :=
  (arena.walk rootId).filter fun id => (arena.get? id).any wanted

def rules (arena : Arena) : List NodeId := arena.walkMatching NodeData.isRule

def declarations (arena : Arena) : List NodeId := arena.walkMatching NodeData.isDeclaration

/-! ## Edits -/

def pushChild (arena : Arena) (parent : NodeId) (data : NodeData) : NodeId × Arena :=
  let (id, grown) := arena.alloc data
  (id, grown.attach parent none id)

def append (arena : Arena) (parent : NodeId) (data : NodeData) : Option NodeId × Arena :=
  match arena.nodes.get? parent with
  | none => (none, arena)
  | some above =>
    if above.isContainer then
      let (id, grown) := arena.pushChild parent data
      (some id, grown)
    else (none, arena)

def insertBefore (arena : Arena) (ref : NodeId) (data : NodeData) : Option NodeId × Arena :=
  match arena.parent? ref, arena.index? ref with
  | some parent, some index =>
    let (id, grown) := arena.alloc data
    (some id, grown.attach parent (some index) id)
  | _, _ => (none, arena)

def moveBefore (arena : Arena) (ref id : NodeId) : Bool × Arena :=
  if ref = id || !arena.contains id || arena.isAncestor id ref then (false, arena)
  else
    match arena.parent? ref with
    | none => (false, arena)
    | some parent =>
      let loose := arena.detach id
      match loose.index? ref with
      | none => (false, loose)
      | some index => (true, loose.attach parent (some index) id)

def drop (arena : Arena) (id : NodeId) : Arena :=
  { arena with
    nodes := arena.nodes.erase id
    lists := arena.lists.erase id
    parents := arena.parents.erase id }

theorem dropShrinks (arena : Arena) (id : NodeId) (stack : List NodeId) :
    Prod.Lex (· < ·) (· < ·)
      ((arena.drop id).lists.size, ((arena.children id).reverse ++ stack).length)
      (arena.lists.size, (id :: stack).length) := by
  have fewer : (arena.drop id).lists.size ≤ arena.lists.size := List.length_filter_le ..
  rcases Nat.lt_or_eq_of_le fewer with less | same
  · exact .left _ _ less
  · rw [same]
    refine .right _ ?_
    -- no entry was taken out, so there was no list to put on the stack
    have all := List.length_filter_eq_length_iff.mp same
    have none : arena.lists.get? id = none := by
      refine List.lookup_eq_none_iff.mpr fun entry listed => ?_
      exact bne_iff_ne.mpr (of_decide_eq_true (all entry listed)).symm
    rw [children, none]
    exact Nat.lt_succ_self _

/-- Takes everything off the stack and out of the maps, and what it leads to as well. The payload of
`id` is handed on from where it comes off. -/
def sweep (arena : Arena) (id : NodeId) (removed : Option NodeData) :
    List NodeId → Option NodeData × Arena
  | [] => (removed, arena)
  | current :: stack =>
    (arena.drop current).sweep id (if current = id then arena.get? current else removed)
      ((arena.children current).reverse ++ stack)
termination_by stack => (arena.lists.size, stack.length)
decreasing_by exact dropShrinks arena current stack

def remove (arena : Arena) (id : NodeId) : Option NodeData × Arena :=
  if id = rootId || !arena.contains id then (none, arena)
  else (arena.detach id).sweep id none [id]

/-! ## Sheets that are read -/

def plant (arena : Arena) (parent : NodeId) : Forest NodeData → Arena
  | .nil => arena
  | .cons data children next =>
    let (id, grown) := arena.pushChild parent data
    ((grown.plant id children).plant parent next)

def parse (source : String) : Except ParseError Arena :=
  (Sheet.parse source).map fun sheet =>
    (empty.modify rootId fun _ => sheet.root).plant rootId (sheet.body.map Node.data)

end Arena
end SheetLint
