import SheetLint.Proofs.ArenaRemovals
import SheetLint.Proofs.TreeEdits

/-! Arenas under editing. Whatever edits are made one after another, with whatever identifiers, on an empty
arena or on one that a text was read into, its maps go on describing one tree. -/
namespace SheetLint.Arena
open Sheet (rootId Change)
variable {arena : Arena} {id other parent ref : NodeId}

def apply (arena : Arena) : Change → Arena
  | .append parent data => (arena.append parent data).2
  | .insertBefore ref data => (arena.insertBefore ref data).2
  | .moveBefore ref id => (arena.moveBefore ref id).2
  | .remove id => (arena.remove id).2
  | .update id edit => arena.modify id edit

theorem appendCases (arena : Arena) (parent : NodeId) (data : NodeData) :
    (∃ above, arena.get? parent = some above ∧ above.isContainer = true ∧
      arena.append parent data = (some arena.fresh, arena.grown parent none data)) ∨
    (∀ above, arena.get? parent = some above → above.isContainer = false) ∧
      arena.append parent data = (none, arena) := by
  unfold append
  change (∃ above, arena.nodes.get? parent = some above ∧ _) ∨ (∀ above, arena.nodes.get? parent = some above → _) ∧ _
  cases found : arena.nodes.get? parent with
  | none => exact .inr ⟨fun above impossible => (by cases impossible), rfl⟩
  | some above =>
    by_cases container : above.isContainer = true
    · refine .inl ⟨above, rfl, container, ?_⟩
      simp only [container, if_true]
      rfl
    · refine .inr ⟨fun other same => ?_, ?_⟩
      · cases same
        simpa using container
      · simp only [container, Bool.false_eq_true, if_false]

namespace WellFormed
variable (wellFormed : arena.WellFormed)
include wellFormed

theorem indexPlace (up : arena.parent? ref = some parent) :
    ∃ front back, arena.children parent = front ++ ref :: back ∧ ref ∉ front ∧
      arena.index? ref = some front.length := by
  obtain ⟨front, back, parted, first⟩ := List.eq_append_cons_of_mem ((wellFormed.parentList ref parent).mp up)
  refine ⟨front, back, parted, first, ?_⟩
  rw [index?, up, Option.bind_some, parted, firstPlace back first]

theorem insertCases (ref : NodeId) (data : NodeData) :
    (∃ parent front back, arena.parent? ref = some parent ∧ arena.children parent = front ++ ref :: back ∧
      ref ∉ front ∧
      arena.insertBefore ref data = (some arena.fresh, arena.grown parent (some front.length) data)) ∨
    arena.parent? ref = none ∧ arena.insertBefore ref data = (none, arena) := by
  unfold insertBefore
  cases up : arena.parent? ref with
  | none => exact .inr ⟨rfl, rfl⟩
  | some parent =>
    obtain ⟨front, back, parted, first, index⟩ := wellFormed.indexPlace up
    refine .inl ⟨parent, front, back, rfl, parted, first, ?_⟩
    rw [index]
    rfl

theorem append (parent : NodeId) (data : NodeData) : (arena.append parent data).2.WellFormed := by
  rcases appendCases arena parent data with ⟨above, found, -, done⟩ | ⟨-, done⟩
  · rw [done]
    exact wellFormed.grown none data (Option.isSome_of_eq_some found)
  · rw [done]
    exact wellFormed

theorem insertBefore (ref : NodeId) (data : NodeData) : (arena.insertBefore ref data).2.WellFormed := by
  rcases wellFormed.insertCases ref data with ⟨parent, front, -, up, -, -, done⟩ | ⟨-, done⟩
  · rw [done]
    exact wellFormed.grown (some front.length) data (wellFormed.edgeLive up).2
  · rw [done]
    exact wellFormed

theorem remove (id : NodeId) : (arena.remove id).2.WellFormed := by
  by_cases accepted : arena.contains id = true ∧ id ≠ rootId
  · obtain ⟨data, result, -, removed, formed, -, -⟩ := wellFormed.removeAccepted accepted.1 accepted.2
    rw [removed]
    exact formed
  · have refused : id = rootId ∨ arena.contains id = false := by
      rw [← Bool.not_eq_true]
      tauto
    rw [removeRefused refused]
    exact wellFormed

end WellFormed

/-! ## Payloads -/

theorem modifyGet (arena : Arena) (id : NodeId) (edit : NodeData → NodeData) (other : NodeId) :
    (arena.modify id edit).get? other =
      if other = id then (arena.get? id).map edit else arena.get? other := by
  unfold modify
  change _ = if other = id then (arena.nodes.get? id).map edit else arena.nodes.get? other
  cases found : arena.nodes.get? id with
  | none =>
    by_cases same : other = id
    · rw [if_pos same, same]
      exact found
    · rw [if_neg same]
      rfl
  | some data => exact arena.nodes.getInsert id other (edit data)

theorem modifyLinks (arena : Arena) (id : NodeId) (edit : NodeData → NodeData) :
    (arena.modify id edit).lists = arena.lists ∧ (arena.modify id edit).parents = arena.parents ∧
      (arena.modify id edit).fresh = arena.fresh := by
  unfold modify
  split <;> exact ⟨rfl, rfl, rfl⟩

theorem modifyLive (arena : Arena) (id : NodeId) (edit : NodeData → NodeData) (other : NodeId) :
    (arena.modify id edit).contains other = arena.contains other := by
  change ((arena.modify id edit).get? other).isSome = (arena.get? other).isSome
  rw [modifyGet]
  split
  · next same => rw [same, Option.isSome_map]
  · rfl

theorem modifyParent (arena : Arena) (id : NodeId) (edit : NodeData → NodeData) (other : NodeId) :
    (arena.modify id edit).parent? other = arena.parent? other := by
  rw [parent?, (arena.modifyLinks id edit).2.1, parent?]

theorem modifyChildren (arena : Arena) (id : NodeId) (edit : NodeData → NodeData) (other : NodeId) :
    (arena.modify id edit).children other = arena.children other := by
  rw [children, (arena.modifyLinks id edit).1, children]

theorem WellFormed.modify (wellFormed : arena.WellFormed) (id : NodeId) (edit : NodeData → NodeData) :
    (arena.modify id edit).WellFormed := by
  have up : (fun low high => (arena.modify id edit).parent? low = some high) =
      fun low high => arena.parent? low = some high := by
    funext low high
    rw [modifyParent]
  refine ⟨?_, ?_, ?_, ?_, ?_, ?_, ?_, ?_, ?_⟩
  · rw [modifyLive]
    exact wellFormed.rootLive
  · rw [modifyParent]
    exact wellFormed.rootTop
  · simpa only [modifyLive, modifyParent] using wellFormed.parentLive
  · simpa only [modifyParent, modifyChildren] using wellFormed.parentList
  · simpa only [modifyChildren] using wellFormed.onceInList
  · simpa only [modifyLive, modifyChildren] using wellFormed.listLive
  · simpa only [modifyLive, (arena.modifyLinks id edit).1] using wellFormed.listOwner
  · intro other
    rw [Below, up]
    exact wellFormed.acyclic other
  · simpa only [modifyLive, (arena.modifyLinks id edit).2.2] using wellFormed.numbered

/-! ## Runs of edits -/

theorem WellFormed.moveBefore (wellFormed : arena.WellFormed) (ref id : NodeId) :
    (arena.moveBefore ref id).2.WellFormed := by
  by_cases guards : arena.contains ref = true ∧ arena.contains id = true ∧ ref ≠ id ∧ ref ≠ rootId ∧
      ¬ arena.Below ref id
  · obtain ⟨refLive, idLive, differs, below, away⟩ := guards
    obtain ⟨-, -, result, -, -, accepted, formed, -, -⟩ :=
      wellFormed.moveAccepted refLive idLive differs below away
    rw [accepted]
    exact formed
  · rw [wellFormed.moveRefused guards]
    exact wellFormed

theorem WellFormed.apply (wellFormed : arena.WellFormed) (change : Change) : (arena.apply change).WellFormed := by
  cases change with
  | append parent data => exact wellFormed.append parent data
  | insertBefore ref data => exact wellFormed.insertBefore ref data
  | moveBefore ref id => exact wellFormed.moveBefore ref id
  | remove id => exact wellFormed.remove id
  | update id edit => exact wellFormed.modify id edit

theorem WellFormed.changes (wellFormed : arena.WellFormed) (changes : List Change) :
    (changes.foldl Arena.apply arena).WellFormed := by
  induction changes generalizing arena with
  | nil => exact wellFormed
  | cons change rest ih => exact ih (wellFormed.apply change)

theorem WellFormed.plant (wellFormed : arena.WellFormed) (parentLive : arena.contains parent = true)
    (forest : Forest NodeData) :
    (arena.plant parent forest).WellFormed ∧
      ∀ other, arena.contains other = true → (arena.plant parent forest).contains other = true := by
  induction forest generalizing arena parent with
  | nil => exact ⟨wellFormed, fun _ isLive => isLive⟩
  | cons data children next ihChildren ihNext =>
    have grown := wellFormed.grown none data parentLive
    have isLive := (wellFormed.grownRelinked none data parentLive).live
    obtain ⟨inner, innerLive⟩ := ihChildren grown ((isLive arena.fresh).mpr (.inl rfl))
    have still (other : NodeId) (before : arena.contains other = true) := innerLive other ((isLive other).mpr (.inr before))
    obtain ⟨outer, outerLive⟩ := ihNext inner (still parent parentLive)
    exact ⟨outer, fun other before => outerLive other (still other before)⟩

theorem parseCases {source : String} {start : Arena} (ok : parse source = .ok start) :
    ∃ sheet, Sheet.parse source = .ok sheet ∧
      start = (empty.modify rootId fun _ => sheet.root).plant rootId (sheet.body.map Node.data) := by
  unfold parse at ok
  cases read : Sheet.parse source with
  | error fault =>
    rw [read] at ok
    cases ok
  | ok sheet =>
    rw [read] at ok
    exact ⟨sheet, rfl, (Except.ok.inj ok).symm⟩

theorem parseWellFormed {source : String} {start : Arena} (ok : parse source = .ok start) : start.WellFormed := by
  obtain ⟨sheet, -, rfl⟩ := parseCases ok
  have rooted := emptyWellFormed.modify rootId fun _ => sheet.root
  exact (rooted.plant rooted.rootLive _).1

end SheetLint.Arena
