import SheetLint.Magic.Imports
import SheetLint.Proofs.Surgery
import SheetLint.Proofs.TreeEdits

/-! Where directives go. The body of a sheet is taken apart at the anchor of its table: each new directive is
added to the front part, and of what follows only the first node may move onto a line of its own. Seen like
this, adding directives commutes with changes to the values of other nodes. -/
namespace SheetLint

namespace Forest

def mapFirst (change : NodeData → NodeData) : Forest Node → Forest Node
  | nil => nil
  | cons node children next => cons { node with data := change node.data } children next

def leaves : List Node → Forest Node
  | [] => nil
  | node :: rest => cons node nil (leaves rest)

@[simp] theorem leavesRoots (nodes : List Node) : (leaves nodes).roots = nodes := by
  induction nodes with
  | nil => rfl
  | cons node rest ih => rw [leaves, roots, ih]

@[simp] theorem leavesLabels (nodes : List Node) : (leaves nodes).labels = nodes := by
  induction nodes with
  | nil => rfl
  | cons node rest ih => rw [leaves, labels, ih, labels, List.nil_append]

@[simp] theorem mapFirstIds (change : NodeData → NodeData) (f : Forest Node) :
    (f.mapFirst change).ids = f.ids := by
  cases f <;> rfl

theorem rootsNil {f : Forest Node} : f.roots = [] ↔ f = nil := by
  cases f <;> simp [roots]

theorem insertBetween {front children next : Forest Node} {node : Node} (absent : node.id ∉ front.ids)
    (tree : Forest Node) :
    insertBefore node.id tree (front ++ cons node children next) =
      front ++ (tree ++ cons node children next) := by
  induction front with
  | nil => rw [nilAppend, insertBefore, if_pos rfl, nilAppend]
  | cons first inner rest _ ih =>
    simp only [idsCons, List.mem_cons, List.mem_append, not_or] at absent
    rw [consAppend, insertBefore, if_neg (Ne.symm absent.1), insertAbsent absent.2.1, ih absent.2.2,
      consAppend]

theorem modifyFirst {node : Node} {children next : Forest Node} (once : (cons node children next).ids.Nodup)
    (change : NodeData → NodeData) :
    (cons node children next).modify node.id change = (cons node children next).mapFirst change := by
  rw [idsCons, List.nodup_cons, List.mem_append, not_or] at once
  have inside := modifyAbsent once.1.1 change
  have behind := modifyAbsent once.1.2 change
  simp only [modify] at inside behind ⊢
  rw [map, inside, behind, if_pos rfl, mapFirst]

theorem mapAppend {α β : Type} (change : α → β) (f g : Forest α) :
    (f ++ g).map change = f.map change ++ g.map change := by
  induction f with
  | nil => rfl
  | cons a children next _ ih => rw [consAppend, map, ih, map, consAppend]

theorem modifyAppend (f g : Forest Node) (id : NodeId) (change : NodeData → NodeData) :
    (f ++ g).modify id change = f.modify id change ++ g.modify id change := mapAppend _ f g

end Forest

namespace Sheet
variable {sheet : Sheet}

theorem appendRoot (container : sheet.root.isContainer = true) (data : NodeData) :
    sheet.append? rootId data = some (sheet.fresh, { sheet with
      body := sheet.body ++ .cons ⟨sheet.fresh, data⟩ .nil .nil, fresh := sheet.fresh + 1 }) := by
  have root : sheet.get? rootId = some sheet.root := rfl
  rw [append?, root]
  simp only [container, if_true]
  rfl

theorem insertPresent (distinct : sheet.Distinct) {ref : NodeId} (present : ref ∈ sheet.body.ids)
    (data : NodeData) :
    sheet.insertBefore? ref data = some (sheet.fresh, { sheet with
      body := .insertBefore ref (.cons ⟨sheet.fresh, data⟩ .nil .nil) sheet.body
      fresh := sheet.fresh + 1 }) := by
  obtain ⟨parent, found⟩ := Option.isSome_iff_exists.mp (Forest.parentIsSome.mpr present)
  have above : sheet.parent? ref = some parent := by rw [parent?, if_neg (distinct.ne present), found]
  rw [insertBefore?, above]
  rfl

end Sheet

namespace ImportTable
open Forest

/- A sheet taken apart where the next directive goes. -/
structure Slot where
  front : Forest Node
  back : Forest Node
  fresh : NodeId

namespace Slot

def sheet (root : NodeData) (slot : Slot) : Sheet := ⟨root, slot.front ++ slot.back, slot.fresh⟩

def anchor (slot : Slot) : Option NodeId := slot.back.roots.head?.map Node.id

def gap (slot : Slot) : String :=
  if slot.front.isEmpty then ""
  else ((slot.back.roots.head?.map fun node => node.data.raws.before).filter hasNewline).getD "\n"

def insert (slot : Slot) (entry : String × String) : Slot where
  front := slot.front ++ leaves [⟨slot.fresh, (directive entry.1 entry.2).withBefore slot.gap⟩]
  back := if slot.front.isEmpty then slot.back.mapFirst ontoNewLine else slot.back
  fresh := slot.fresh + 1

def inserts (slot : Slot) (entries : Uses) : Slot := entries.foldl insert slot

variable {slot : Slot} {root : NodeData}

theorem insertAnchor (slot : Slot) (entry : String × String) : (slot.insert entry).anchor = slot.anchor := by
  simp only [anchor, insert]
  split
  · cases slot.back <;> rfl
  · rfl

theorem insertsAnchor (slot : Slot) (entries : Uses) : (slot.inserts entries).anchor = slot.anchor := by
  induction entries generalizing slot with
  | nil => rfl
  | cons entry rest ih => exact (ih (slot.insert entry)).trans (slot.insertAnchor entry)

theorem insertDistinct (distinct : (slot.sheet root).Distinct) (entry : String × String) :
    ((slot.insert entry).sheet root).Distinct := by
  refine distinct.grown ?_
  simp only [insert, sheet, idsAppend]
  have same : (if slot.front.isEmpty then slot.back.mapFirst ontoNewLine else slot.back).ids =
      slot.back.ids := by
    split <;> simp
  rw [same, List.append_assoc]
  exact List.perm_middle

end Slot

theorem anchorIndex {sheet : Sheet} {front children next : Forest Node} {node : Node}
    (distinct : sheet.Distinct) (parts : sheet.body = front ++ .cons node children next) :
    sheet.index? node.id = some front.roots.length := by
  have listed : sheet.children Sheet.rootId = front.roots.map Node.id ++ node.id :: next.roots.map Node.id := by
    rw [(Sheet.childrenFound (Sheet.findRoot sheet)).1, parts, rootsAppend, roots, List.map_append,
      List.map_cons]
  have once := distinct.once
  rw [parts, idsAppend, List.nodup_append] at once
  have absent : node.id ∉ front.roots.map Node.id := fun inside =>
    once.2.2 _ (rootsIds inside) _ (by simp) rfl
  have above : sheet.parent? node.id = some Sheet.rootId := distinct.parentList.mpr (by simp [listed])
  have before : (front.roots.map Node.id).findIdx? (· == node.id) = none := List.idxOf?_eq_none_iff.mpr absent
  rw [Sheet.index?, above, Option.bind_some, listed, List.idxOf?, List.findIdx?_append, before]
  simp [List.findIdx?_cons]

theorem insertPlaced {slot : Slot} {root : NodeData} (distinct : (slot.sheet root).Distinct)
    (container : root.isContainer = true) (uses : Uses) (name source : String) :
    ImportTable.insert ⟨uses, slot.anchor⟩ (slot.sheet root) name source =
      (⟨insertKey name source uses, slot.anchor⟩, (slot.insert (name, source)).sheet root) := by
  rw [ImportTable.insert, Prod.mk.injEq]
  refine ⟨rfl, ?_⟩
  obtain ⟨front, back, fresh⟩ := slot
  cases back with
  | nil =>
    have emptiness : (Slot.sheet root ⟨front, .nil, fresh⟩).isEmpty = front.isEmpty := by
      cases front <;> rfl
    simp only [place, Slot.anchor, roots, List.head?_nil, Option.map_none, Option.filter_none, emptiness]
    rw [Sheet.appendRoot container]
    simp [Slot.sheet, Slot.insert, Slot.gap, roots, leaves, mapFirst]
  | cons node children next =>
    have once := distinct.once
    simp only [Slot.sheet, idsAppend, idsCons, List.nodup_append] at once
    have absent : node.id ∉ front.ids := fun inside => once.2.2 _ inside _ (by simp) rfl
    have present : node.id ∈ (Slot.sheet root ⟨front, .cons node children next, fresh⟩).body.ids := by
      simp [Slot.sheet]
    have found : (Slot.sheet root ⟨front, .cons node children next, fresh⟩).contains node.id = true :=
      Sheet.live.mpr (.inr present)
    simp only [place, Slot.anchor, roots, List.head?_cons, Option.map_some, Option.filter_some, found, if_true,
      anchorIndex distinct rfl]
    by_cases first : front = .nil
    · subst first
      have moved : (Slot.sheet root ⟨.nil, .cons node children next, fresh⟩).modify node.id ontoNewLine =
          Slot.sheet root ⟨.nil, mapFirst ontoNewLine (.cons node children next), fresh⟩ := by
        rw [Sheet.modify, if_neg (distinct.ne present)]
        simp only [Slot.sheet, nilAppend]
        rw [modifyFirst (by simpa [Slot.sheet] using distinct.once)]
      have still := distinct.modify node.id ontoNewLine
      rw [moved] at still ⊢
      rw [Sheet.insertPresent still (by simp [Slot.sheet, mapFirst])]
      simp [Slot.sheet, Slot.insert, Slot.gap, mapFirst, insertBefore, leaves, roots, isEmpty]
      rfl
    · have behind : front.roots.length ≠ 0 := by simpa [rootsNil] using first
      have visible : front.isEmpty = false := by cases front <;> simp_all [isEmpty]
      have own : (Slot.sheet root ⟨front, .cons node children next, fresh⟩).get? node.id = some node.data := by
        rw [Sheet.get?, Sheet.findBody _ (distinct.ne present)]
        exact @labelFound _ distinct.once node (by simp [Slot.sheet, labels])
      rw [Sheet.insertPresent distinct present, own]
      simp [behind, Slot.sheet, Slot.insert, Slot.gap, visible, roots, insertBetween absent, leaves,
        appendAssoc]

/-! ## Several directives -/

def unmet (uses required : Uses) : Uses :=
  required.filter fun entry => uses.lookup entry.1 != some entry.2

def record (uses entries : Uses) : Uses :=
  entries.foldl (fun uses entry => insertKey entry.1 entry.2 uses) uses

def demanded (uses : Uses) : List Uses → Uses
  | [] => []
  | required :: rest => unmet uses required ++ demanded (record uses (unmet uses required)) rest

def ensureAll (table : ImportTable) (sheet : Sheet) (requirements : List Uses) : ImportTable × Sheet :=
  requirements.foldl (fun state required => state.1.ensure state.2 required) (table, sheet)

theorem recordAppend (uses first second : Uses) :
    record uses (first ++ second) = record (record uses first) second := by
  rw [record, record, record, List.foldl_append]

theorem demandedAppend (uses : Uses) (first second : List Uses) :
    demanded uses (first ++ second) =
      demanded uses first ++ demanded (record uses (demanded uses first)) second := by
  induction first generalizing uses with
  | nil => rfl
  | cons required rest ih =>
    rw [List.cons_append, demanded, demanded, ih, recordAppend, List.append_assoc]

theorem Slot.insertsAppend (slot : Slot) (first second : Uses) :
    slot.inserts (first ++ second) = (slot.inserts first).inserts second := by
  rw [inserts, inserts, inserts, List.foldl_append]

section Placing
variable {slot : Slot} {root : NodeData}

theorem Slot.insertsDistinct (distinct : (slot.sheet root).Distinct) (entries : Uses) :
    ((slot.inserts entries).sheet root).Distinct := by
  induction entries generalizing slot with
  | nil => exact distinct
  | cons entry rest ih => exact ih (insertDistinct distinct entry)

theorem ensurePlaced (distinct : (slot.sheet root).Distinct) (container : root.isContainer = true)
    (uses required : Uses) :
    ensure ⟨uses, slot.anchor⟩ (slot.sheet root) required =
      (⟨record uses (unmet uses required), slot.anchor⟩,
        (slot.inserts (unmet uses required)).sheet root) := by
  rw [ensure]
  change (unmet uses required).foldl _ _ = _
  induction unmet uses required generalizing slot uses with
  | nil => rfl
  | cons entry rest ih =>
    rw [List.foldl_cons, insertPlaced distinct container, ← slot.insertAnchor entry]
    exact ih (Slot.insertDistinct distinct entry) _

theorem ensureAllPlaced (distinct : (slot.sheet root).Distinct) (container : root.isContainer = true)
    (uses : Uses) (requirements : List Uses) :
    ensureAll ⟨uses, slot.anchor⟩ (slot.sheet root) requirements =
      (⟨record uses (demanded uses requirements), slot.anchor⟩,
        (slot.inserts (demanded uses requirements)).sheet root) := by
  induction requirements generalizing slot uses with
  | nil => rfl
  | cons required rest ih =>
    have later := ih (Slot.insertsDistinct distinct (unmet uses required)) (record uses (unmet uses required))
    rw [slot.insertsAnchor] at later
    rw [demanded, recordAppend, slot.insertsAppend, ← later, ensureAll, List.foldl_cons,
      ensurePlaced distinct container]
    rfl

end Placing

/-! ## What stays -/

theorem Slot.insertsParts (slot : Slot) (entries : Uses) :
    ∃ added, (slot.inserts entries).front = slot.front ++ leaves added ∧
      added.map Node.id = List.range' slot.fresh entries.length ∧
      added.map (fun node => node.data.withBefore "") = entries.map (fun entry => directive entry.1 entry.2) ∧
      ((slot.inserts entries).back = slot.back ∨
        slot.front = .nil ∧ (slot.inserts entries).back = slot.back.mapFirst ontoNewLine) := by
  induction entries generalizing slot with
  | nil => exact ⟨[], by simp [inserts, leaves], rfl, rfl, .inl rfl⟩
  | cons entry rest ih =>
    obtain ⟨added, front, ids, data, back⟩ := ih (slot.insert entry)
    refine ⟨⟨slot.fresh, (directive entry.1 entry.2).withBefore slot.gap⟩ :: added, ?_, ?_, ?_, ?_⟩
    · rw [inserts, List.foldl_cons]
      rw [inserts] at front
      rw [front, insert, appendAssoc]
      rfl
    · rw [List.map_cons, ids, List.length_cons, List.range'_succ]
      rfl
    · rw [List.map_cons, data, List.map_cons]
      rfl
    · -- a directive in front is there to stay, so nothing moves a second time
      have kept : (slot.inserts (entry :: rest)).back = (slot.insert entry).back := by
        rcases back with same | ⟨none, -⟩
        · exact same
        · have here := congrArg roots none
          simp [insert, roots] at here
      rw [kept, insert]
      by_cases first : slot.front.isEmpty = true
      · refine .inr ⟨?_, if_pos first⟩
        cases front : slot.front with
        | nil => rfl
        | cons => rw [front] at first; cases first
      · exact .inl (if_neg first)

theorem lineBefore (node : NodeData) : ontoNewLine node = node.withBefore (ontoNewLine node).raws.before := by
  rw [ontoNewLine]
  split <;> rfl

theorem mapFirstLine (f : Forest Node) :
    ∃ before, f.mapFirst ontoNewLine = f.mapFirst (·.withBefore before) := by
  cases f with
  | nil => exact ⟨"", rfl⟩
  | cons node children next => exact ⟨_, by rw [mapFirst, mapFirst, ← lineBefore]⟩

theorem Slot.insertsBody (slot : Slot) (entries : Uses) :
    ∃ behind added,
      (slot.inserts entries).front ++ (slot.inserts entries).back = slot.front ++ (leaves added ++ behind) ∧
      added.map Node.id = List.range' slot.fresh added.length ∧
      added.map (fun node => node.data.withBefore "") = entries.map (fun entry => directive entry.1 entry.2) ∧
      (behind = slot.back ∨
        slot.front = .nil ∧ ∃ before, behind = slot.back.mapFirst (·.withBefore before)) := by
  obtain ⟨added, front, ids, data, back⟩ := slot.insertsParts entries
  have count : added.length = entries.length := by simpa using congrArg List.length data
  refine ⟨(slot.inserts entries).back, added, ?_, count ▸ ids, data, ?_⟩
  · rw [front, appendAssoc]
  · refine back.imp_right fun moved => ⟨moved.1, ?_⟩
    rw [moved.2]
    exact mapFirstLine slot.back

/-! ## Values of other nodes -/

theorem setValueRaws (value : String) (node : NodeData) : (node.setValue value).raws = node.raws := by
  unfold NodeData.setValue
  split <;> rfl

theorem setValueBefore (value before : String) (node : NodeData) :
    (node.withBefore before).setValue value = (node.setValue value).withBefore before := by
  obtain ⟨kind, raws, span⟩ := node
  cases kind <;> rfl

theorem setValueLine (value : String) (node : NodeData) :
    (ontoNewLine node).setValue value = ontoNewLine (node.setValue value) := by
  rw [ontoNewLine, ontoNewLine, setValueRaws]
  split
  · rfl
  · rw [setValueBefore]

def Slot.modify (slot : Slot) (id : NodeId) (change : NodeData → NodeData) : Slot :=
  ⟨slot.front.modify id change, slot.back.modify id change, slot.fresh⟩

namespace Slot
variable {slot : Slot} {id : NodeId}

theorem modifySheet (root : NodeData) (below : id ≠ Sheet.rootId) (change : NodeData → NodeData) :
    (slot.sheet root).modify id change = (slot.modify id change).sheet root := by
  rw [Sheet.modify, if_neg below, sheet, modifyAppend]
  rfl

theorem modifyAnchor (slot : Slot) (id : NodeId) (change : NodeData → NodeData) :
    (slot.modify id change).anchor = slot.anchor := by
  simp only [anchor, Slot.modify]
  cases slot.back with
  | nil => rfl
  | cons node children next =>
    simp only [Forest.modify, Forest.map, roots, List.head?_cons, Option.map_some]
    split <;> rfl

theorem setValueGap (value : String) : (slot.modify id (·.setValue value)).gap = slot.gap := by
  have front : (slot.front.modify id (·.setValue value)).isEmpty = slot.front.isEmpty := by
    cases slot.front <;> rfl
  have back : ((slot.back.modify id (·.setValue value)).roots.head?.map fun node => node.data.raws.before) =
      slot.back.roots.head?.map fun node => node.data.raws.before := by
    cases slot.back with
    | nil => rfl
    | cons node children next =>
      simp only [Forest.modify, Forest.map, roots, List.head?_cons, Option.map_some, Option.some_inj]
      split
      · rw [setValueRaws]
      · rfl
  rw [gap, gap, Slot.modify, front, back]

theorem insertSetValue (old : id ≠ slot.fresh) (value : String) (entry : String × String) :
    (slot.insert entry).modify id (·.setValue value) = (slot.modify id (·.setValue value)).insert entry := by
  have front : (slot.front.modify id (·.setValue value)).isEmpty = slot.front.isEmpty := by
    cases slot.front <;> rfl
  have moved : (slot.back.mapFirst ontoNewLine).modify id (·.setValue value) =
      (slot.back.modify id (·.setValue value)).mapFirst ontoNewLine := by
    cases slot.back with
    | nil => rfl
    | cons node children next =>
      simp only [mapFirst, Forest.modify, Forest.map]
      by_cases own : node.id = id
      · simp only [own, if_true, setValueLine]
      · simp only [own, if_false]
  have leaf := @modifyAbsent (leaves [⟨slot.fresh, (directive entry.1 entry.2).withBefore slot.gap⟩]) id
    (by simpa [leaves] using old) (·.setValue value)
  have gap := @setValueGap slot id value
  unfold insert
  rw [gap]
  simp only [Slot.modify, modifyAppend, leaf, front]
  split
  · rw [moved]
  · rfl

theorem insertsSetValue (old : id < slot.fresh) (value : String) (entries : Uses) :
    (slot.inserts entries).modify id (·.setValue value) =
      (slot.modify id (·.setValue value)).inserts entries := by
  induction entries generalizing slot with
  | nil => rfl
  | cons entry rest ih =>
    have later := @ih (slot.insert entry) (Nat.lt_succ_of_lt old)
    rw [insertSetValue (Nat.ne_of_lt old)] at later
    exact later

end Slot

/-! ## The sheet at its anchor -/

theorem cutAtAnchor (f : Forest Node) :
    ∃ front back, f = front ++ back ∧ (∀ node ∈ front.roots, isUse node = true) ∧
      (∀ node ∈ back.roots.head?, isUse node = false) ∧ anchorOf f.roots = back.roots.head?.map Node.id := by
  induction f with
  | nil => exact ⟨.nil, .nil, rfl, by simp [roots], by simp [roots], rfl⟩
  | cons node children next _ ih =>
    by_cases directive : isUse node = true
    · obtain ⟨front, back, rfl, uses, first, anchor⟩ := ih
      refine ⟨.cons node children front, back, rfl, List.forall_mem_cons.mpr ⟨directive, uses⟩, first, ?_⟩
      rw [← anchor, anchorOf, anchorOf, roots, List.find?_cons_of_neg (by simpa using directive)]
    · refine ⟨.nil, .cons node children next, rfl, by simp [roots], by simpa [roots] using directive, ?_⟩
      rw [anchorOf, roots, List.find?_cons_of_pos (by simpa using directive)]
      rfl

theorem scanSlot (sheet : Sheet) :
    ∃ slot : Slot, sheet = slot.sheet sheet.root ∧ scan sheet = ⟨bindings sheet.body.roots, slot.anchor⟩ ∧
      (∀ node ∈ slot.front.roots, isUse node = true) ∧ ∀ node ∈ slot.back.roots.head?, isUse node = false := by
  obtain ⟨front, back, parts, uses, first, anchor⟩ := cutAtAnchor sheet.body
  refine ⟨⟨front, back, sheet.fresh⟩, ?_, ?_, uses, first⟩
  · rw [Slot.sheet, ← parts]
  · rw [scan, anchor]
    rfl

end ImportTable
end SheetLint
