import Mathlib.Data.List.InsertIdx
import SheetLint.Proofs.ArenaTrees

/-! Links that are made and cut. Putting a node among the children of another, be it new or taken from
somewhere else, keeps an arena well formed as long as the new parent is not below the node; a move makes
sure of that by going up from the place the node is to come to. -/
namespace SheetLint.Arena
open Sheet (rootId)
variable {arena : Arena} {id other parent : NodeId}

/-! ## The maps after one link -/

theorem attachParent (arena : Arena) (parent : NodeId) (index : Option Nat) (id other : NodeId) :
    (arena.attach parent index id).parent? other = if other = id then some parent else arena.parent? other :=
  arena.parents.getInsert id other parent

theorem attachChildren (arena : Arena) (parent : NodeId) (index : Option Nat) (id other : NodeId) :
    (arena.attach parent index id).children other =
      if other = parent then placed id (arena.children parent) index else arena.children other := by
  change ((arena.lists.insert parent _).get? other).getD [] = _
  rw [Slots.getInsert]
  split <;> rfl

theorem attachLists (arena : Arena) (parent : NodeId) (index : Option Nat) (id other : NodeId)
    (kept : ((arena.attach parent index id).lists.get? other).isSome = true) :
    other = parent ∨ (arena.lists.get? other).isSome = true := by
  change ((arena.lists.insert parent _).get? other).isSome = true at kept
  rw [Slots.getInsert] at kept
  split at kept
  · next same => exact .inl same
  · exact .inr kept

theorem placedPerm (id : NodeId) (siblings : List NodeId) (index : Option Nat) :
    (placed id siblings index).Perm (id :: siblings) := by
  have behind : (siblings ++ [id]).Perm (id :: siblings) := List.perm_append_comm
  unfold placed
  split
  · next index =>
    split
    · next within => exact List.perm_insertIdx id siblings within
    · exact behind
  · exact behind

theorem placedBetween (id : NodeId) (front back : List NodeId) :
    placed id (front ++ back) (some front.length) = front ++ id :: back := by
  rw [placed, if_pos (by simp)]
  induction front with
  | nil => rfl
  | cons child front ih => rw [List.cons_append, List.length_cons, List.insertIdx_succ_cons, ih, List.cons_append]

theorem firstPlace {front : List NodeId} (back : List NodeId) (first : id ∉ front) :
    (front ++ id :: back).idxOf? id = some front.length := by
  rw [List.idxOf?_eq_some_iff]
  refine ⟨by simp, by simp, fun place before => ?_⟩
  have within : place < front.length := before
  simp only [List.getElem_append_left within]
  exact fun here => first (here ▸ List.getElem_mem within)

theorem detachGet (arena : Arena) (id other : NodeId) : (arena.detach id).get? other = arena.get? other := by
  unfold detach
  split <;> rfl

theorem detachFresh (arena : Arena) (id : NodeId) : (arena.detach id).fresh = arena.fresh := by
  unfold detach
  split <;> rfl

theorem detachParent (arena : Arena) (id other : NodeId) :
    (arena.detach id).parent? other = if other = id then none else arena.parent? other := by
  unfold detach
  split
  · next top =>
    split
    · next same => exact same ▸ top
    · rfl
  · exact arena.parents.getErase id other

theorem detachChildren (up : arena.parent? id = some parent) (other : NodeId) :
    (arena.detach id).children other =
      if other = parent then (arena.children parent).filter (· ≠ id) else arena.children other := by
  have found : arena.parents.get? id = some parent := up
  unfold detach children
  simp only [found]
  cases list : arena.lists.get? parent with
  | none =>
    by_cases here : other = parent
    · simp [here, list]
    · simp [here]
  | some siblings =>
    simp only
    rw [Slots.getInsert]
    split <;> rfl

theorem detachLists (arena : Arena) (id other : NodeId) (kept : ((arena.detach id).lists.get? other).isSome = true) :
    (arena.lists.get? other).isSome = true := by
  unfold detach at kept
  split at kept
  · exact kept
  · next parent _ =>
    cases list : arena.lists.get? parent with
    | none =>
      simp only [list] at kept
      exact kept
    | some siblings =>
      simp only [list, Slots.getInsert] at kept
      split at kept
      · next same => rw [same, list]; rfl
      · exact kept

/-! ## A node under a new parent -/

/- What the maps say when `id` has come among the children of `parent`, and of no other. -/
structure Relinked (parent id : NodeId) (arena result : Arena) : Prop where
  live : ∀ other, result.contains other = true ↔ other = id ∨ arena.contains other = true
  up : ∀ other, result.parent? other = if other = id then some parent else arena.parent? other
  listed : ∀ other above,
    other ∈ result.children above ↔ if other = id then above = parent else other ∈ arena.children above
  once : ∀ above, (result.children above).Nodup
  owner : ∀ other, (result.lists.get? other).isSome = true → result.contains other = true
  numbered : ∀ other, result.contains other = true → other < result.fresh

theorem Relinked.chain {result : Arena} (relinked : Relinked parent id arena result)
    (away : ¬ (parent = id ∨ arena.Below parent id)) {low high : NodeId} (below : result.Below low high) :
    arena.Below low high ∨
      (low = id ∨ arena.Below low id) ∧ (parent = high ∨ arena.Below parent high) := by
  have edge {low high : NodeId} (up : result.parent? low = some high) :
      low = id ∧ parent = high ∨ low ≠ id ∧ arena.parent? low = some high := by
    rw [relinked.up] at up
    split at up
    · next same => exact .inl ⟨same, Option.some.inj up⟩
    · next differs => exact .inr ⟨differs, up⟩
  induction below with
  | single up =>
    rcases edge up with ⟨same, here⟩ | ⟨-, old⟩
    · exact .inr ⟨.inl same, .inl here⟩
    · exact .inl (.single old)
  | tail _ up ih =>
    rcases edge up with ⟨same, here⟩ | ⟨-, old⟩
    · subst same
      rcases ih with below | ⟨-, back⟩
      · exact .inr ⟨.inr below, .inl here⟩
      · exact absurd back away
    · rcases ih with below | ⟨below, back⟩
      · exact .inl (.tail below old)
      · refine .inr ⟨below, .inr ?_⟩
        rcases back with same | back
        · exact .single (same ▸ old)
        · exact .tail back old

theorem WellFormed.relinked (wellFormed : arena.WellFormed) {result : Arena}
    (relinked : Relinked parent id arena result) (parentLive : arena.contains parent = true)
    (notRoot : id ≠ rootId) (away : ¬ (parent = id ∨ arena.Below parent id)) : result.WellFormed where
  rootLive := (relinked.live rootId).mpr (.inr wellFormed.rootLive)
  rootTop := by rw [relinked.up, if_neg notRoot.symm, wellFormed.rootTop]
  parentLive := by
    intro other isLive below
    rw [relinked.up]
    split
    · exact ⟨parent, rfl, (relinked.live parent).mpr (.inr parentLive)⟩
    · next differs =>
      obtain ⟨above, up, aboveLive⟩ :=
        wellFormed.parentLive other (((relinked.live other).mp isLive).resolve_left differs) below
      exact ⟨above, up, (relinked.live above).mpr (.inr aboveLive)⟩
  parentList := by
    intro other above
    rw [relinked.up, relinked.listed]
    split
    · exact ⟨fun same => (Option.some.inj same).symm, fun same => congrArg some same.symm⟩
    · exact wellFormed.parentList other above
  onceInList := relinked.once
  listLive := by
    intro other above listed
    rw [relinked.listed] at listed
    rw [relinked.live, relinked.live]
    split at listed
    · next same => exact ⟨.inl same, .inr (listed ▸ parentLive)⟩
    · have both := wellFormed.listLive other above listed
      exact ⟨.inr both.1, .inr both.2⟩
  listOwner := relinked.owner
  acyclic := by
    intro other cycle
    rcases relinked.chain away cycle with old | ⟨low, high⟩
    · exact wellFormed.acyclic other old
    · -- from the parent up to the node, and from there up to `id`
      rcases high with rfl | high
      · exact away low
      · rcases low with rfl | low
        · exact away (.inr high)
        · exact away (.inr (high.trans low))
  numbered := relinked.numbered

/-! ## New nodes -/

def grown (arena : Arena) (parent : NodeId) (index : Option Nat) (data : NodeData) : Arena :=
  (arena.alloc data).2.attach parent index arena.fresh

theorem grownGet (arena : Arena) (parent : NodeId) (index : Option Nat) (data : NodeData) (other : NodeId) :
    (arena.grown parent index data).get? other = if other = arena.fresh then some data else arena.get? other :=
  arena.nodes.getInsert arena.fresh other data

theorem grownParent (arena : Arena) (parent : NodeId) (index : Option Nat) (data : NodeData) (other : NodeId) :
    (arena.grown parent index data).parent? other =
      if other = arena.fresh then some parent else arena.parent? other :=
  attachParent ..

namespace WellFormed
variable (wellFormed : arena.WellFormed)
include wellFormed

theorem freshGone : ¬ arena.contains arena.fresh = true :=
  fun isLive => Nat.lt_irrefl _ (wellFormed.numbered _ isLive)

theorem allocChildren (data : NodeData) (other : NodeId) :
    (arena.alloc data).2.children other = arena.children other := by
  unfold alloc children
  dsimp only
  split
  · rw [Slots.getInsert]
    split
    · next same =>
      have none := (wellFormed.missing wellFormed.freshGone).2
      rw [same, ← children, none]
      rfl
    · rfl
  · rfl

theorem grownChildren (index : Option Nat) (data : NodeData) (other : NodeId) :
    (arena.grown parent index data).children other =
      if other = parent then placed arena.fresh (arena.children parent) index else arena.children other := by
  rw [grown, attachChildren, wellFormed.allocChildren, wellFormed.allocChildren]

theorem grownRelinked (index : Option Nat) (data : NodeData) (parentLive : arena.contains parent = true) :
    Relinked parent arena.fresh arena (arena.grown parent index data) := by
  have isLive (other : NodeId) : (arena.grown parent index data).contains other = true ↔
      other = arena.fresh ∨ arena.contains other = true := by
    change ((arena.grown parent index data).get? other).isSome = true ↔ _
    rw [grownGet]
    split
    · next same => simp [same]
    · next differs => simp [differs, contains, get?]
  have away (above : NodeId) : arena.fresh ∉ arena.children above :=
    fun listed => wellFormed.freshGone (wellFormed.listLive _ _ listed).1
  refine ⟨isLive, grownParent arena parent index data, ?_, ?_, ?_, ?_⟩
  · intro other above
    rw [wellFormed.grownChildren]
    by_cases here : above = parent
    · subst here
      rw [if_pos rfl, (placedPerm ..).mem_iff, List.mem_cons]
      by_cases new : other = arena.fresh <;> simp [new]
    · rw [if_neg here]
      by_cases new : other = arena.fresh
      · simp [new, here, away]
      · simp [new]
  · intro above
    rw [wellFormed.grownChildren]
    split
    · rw [(placedPerm ..).nodup_iff]
      exact List.nodup_cons.mpr ⟨away parent, wellFormed.onceInList parent⟩
    · exact wellFormed.onceInList above
  · intro other kept
    rw [isLive]
    rcases attachLists _ _ _ _ _ kept with same | kept
    · exact .inr (same ▸ parentLive)
    · unfold alloc at kept
      dsimp only at kept
      split at kept
      · rw [Slots.getInsert] at kept
        split at kept
        · next same => exact .inl same
        · exact .inr (wellFormed.listOwner other kept)
      · exact .inr (wellFormed.listOwner other kept)
  · intro other listed
    change other < arena.fresh + 1
    rcases (isLive other).mp listed with same | old
    · exact same ▸ Nat.lt_succ_self _
    · exact Nat.lt_succ_of_lt (wellFormed.numbered other old)

theorem grown (index : Option Nat) (data : NodeData) (parentLive : arena.contains parent = true) :
    (arena.grown parent index data).WellFormed := by
  refine wellFormed.relinked (wellFormed.grownRelinked index data parentLive) parentLive ?_ ?_
  · intro same
    exact wellFormed.freshGone (same ▸ wellFormed.rootLive)
  · rintro (same | below)
    · exact wellFormed.freshGone (same ▸ parentLive)
    · exact wellFormed.freshGone (wellFormed.belowLive below).2

end WellFormed

theorem emptyLive : empty.contains id = true ↔ id = rootId := by
  unfold contains empty
  rw [Slots.getInsert]
  split <;> simp_all [Slots.get?, Slots.empty]

theorem emptyChildren (id : NodeId) : empty.children id = [] := by
  unfold children empty
  rw [Slots.getInsert]
  split <;> rfl

theorem emptyWellFormed : empty.WellFormed where
  rootLive := rfl
  rootTop := rfl
  parentLive := fun _ isLive below => absurd (emptyLive.mp isLive) below
  parentList := by
    intro id parent
    rw [emptyChildren]
    exact ⟨fun up => (by cases up), fun listed => (by cases listed)⟩
  onceInList := fun parent => by rw [emptyChildren]; exact List.nodup_nil
  listLive := fun id parent listed => by rw [emptyChildren] at listed; cases listed
  listOwner := by
    intro id kept
    unfold empty at kept
    rw [Slots.getInsert] at kept
    split at kept
    · next same => exact emptyLive.mpr same
    · cases kept
  acyclic := by
    intro id cycle
    obtain ⟨parent, up, -⟩ := belowSplit.mp cycle
    cases up
  numbered := fun id isLive => by rw [emptyLive.mp isLive]; exact Nat.lt_succ_self _

/-! ## Moves -/

/- What an arena answers when `id` has gone from the children of `old` to those of `new`, in front of
`ref`, with all that is below it. -/
structure MovedBefore (ref id old new : NodeId) (arena result : Arena) : Prop where
  place : ∃ front back, (arena.children new).filter (· ≠ id) = front ++ ref :: back ∧
    result.children new = front ++ id :: ref :: back
  left : old ≠ new → result.children old = (arena.children old).filter (· ≠ id)
  lists : ∀ other, other ≠ old → other ≠ new → result.children other = arena.children other
  parent : ∀ other, result.parent? other = if other = id then some new else arena.parent? other
  data : ∀ other, result.get? other = arena.get? other
  subtree : ∀ other, other = id ∨ other ∈ arena.walk id →
    result.children other = arena.children other ∧ result.walk other = arena.walk other

section Moved
variable {ref old new : NodeId}

theorem WellFormed.looseChildren (wellFormed : arena.WellFormed) (leaves : arena.parent? id = some old)
    (above : NodeId) : (arena.detach id).children above = (arena.children above).filter (· ≠ id) := by
  rw [detachChildren leaves]
  split
  · next here => rw [here]
  · next differs =>
    -- `id` is in no list but that of its parent, so the other lists are without it as they are
    refine (List.filter_eq_self.mpr fun child listed => ?_).symm
    have up := (wellFormed.parentList child above).mpr listed
    simp only [decide_eq_true_eq]
    rintro rfl
    exact differs (Option.some.inj (up.symm.trans leaves))

theorem WellFormed.looseIndex (wellFormed : arena.WellFormed) (leaves : arena.parent? id = some old)
    (enters : arena.parent? ref = some new) (differs : ref ≠ id) :
    ∃ front back, (arena.children new).filter (· ≠ id) = front ++ ref :: back ∧
      (arena.detach id).children new = front ++ ref :: back ∧
      (arena.detach id).index? ref = some front.length := by
  have listed := (wellFormed.parentList ref new).mp enters
  have kept : ref ∈ (arena.children new).filter (· ≠ id) :=
    List.mem_filter.mpr ⟨listed, by simpa using differs⟩
  have same := wellFormed.looseChildren leaves new
  obtain ⟨front, back, split, first⟩ := List.eq_append_cons_of_mem kept
  refine ⟨front, back, split, same.trans split, ?_⟩
  rw [index?, detachParent, if_neg differs, enters, Option.bind_some, same, split, firstPlace back first]

theorem WellFormed.movedRelinked (wellFormed : arena.WellFormed) (leaves : arena.parent? id = some old)
    (enters : arena.parent? ref = some new) (index : Option Nat) :
    Relinked new id arena ((arena.detach id).attach new index id) := by
  have isLive (other : NodeId) :
      ((arena.detach id).attach new index id).contains other = arena.contains other := by
    change ((arena.detach id).get? other).isSome = _
    rw [detachGet]
    rfl
  have idLive := (wellFormed.edgeLive leaves).1
  have loose (other above : NodeId) :
      other ∈ (arena.detach id).children above ↔ other ≠ id ∧ other ∈ arena.children above := by
    rw [wellFormed.looseChildren leaves, List.mem_filter, decide_eq_true_eq, and_comm]
  have looseOnce (above : NodeId) : ((arena.detach id).children above).Nodup := by
    rw [wellFormed.looseChildren leaves]
    exact (wellFormed.onceInList above).filter _
  refine ⟨fun other => ?_, fun other => ?_, fun other above => ?_, fun above => ?_, fun other kept => ?_,
    fun other listed => ?_⟩
  · rw [isLive]
    exact ⟨.inr, fun either => either.elim (fun same => same ▸ idLive) fun listed => listed⟩
  · rw [attachParent, detachParent]
    split <;> rfl
  · rw [attachChildren]
    by_cases here : above = new
    · subst here
      rw [if_pos rfl, (placedPerm ..).mem_iff, List.mem_cons, loose]
      by_cases same : other = id <;> simp [same]
    · rw [if_neg here, loose]
      by_cases same : other = id <;> simp [same, here]
  · rw [attachChildren]
    split
    · rw [(placedPerm ..).nodup_iff]
      exact List.nodup_cons.mpr ⟨fun listed => ((loose id new).mp listed).1 rfl, looseOnce new⟩
    · exact looseOnce above
  · rw [isLive]
    rcases attachLists _ _ _ _ _ kept with same | kept
    · exact same ▸ (wellFormed.edgeLive enters).2
    · exact wellFormed.listOwner other (detachLists arena id other kept)
  · rw [isLive] at listed
    change other < (arena.detach id).fresh
    rw [detachFresh]
    exact wellFormed.numbered other listed

theorem Visits.transport {result : Arena} {ids order : List NodeId} (visits : arena.Visits ids order)
    (same : ∀ other ∈ order, result.children other = arena.children other) : result.Visits ids order := by
  induction visits with
  | nil => exact .nil
  | @cons id stack below after inner rest ihInner ihRest =>
    refine .cons ?_ (ihRest fun other inside => same other (by simp [inside]))
    rw [same id List.mem_cons_self]
    exact ihInner fun other inside => same other (by simp [inside])

theorem WellFormed.movedBefore (wellFormed : arena.WellFormed) (leaves : arena.parent? id = some old)
    (enters : arena.parent? ref = some new) (differs : ref ≠ id) (away : ¬ arena.Below ref id) :
    ∃ index, (arena.detach id).index? ref = some index ∧
      ((arena.detach id).attach new (some index) id).WellFormed ∧
      MovedBefore ref id old new arena ((arena.detach id).attach new (some index) id) := by
  obtain ⟨front, back, parted, loose, index⟩ := wellFormed.looseIndex leaves enters differs
  refine ⟨front.length, index, ?_⟩
  have relinked := wellFormed.movedRelinked leaves enters (some front.length)
  have outside : ¬ (new = id ∨ arena.Below new id) := by
    rintro (same | below)
    · exact away (.single (same ▸ enters))
    · exact away (.head enters below)
  have notRoot : id ≠ rootId := by
    rintro rfl
    exact absurd (wellFormed.rootTop.symm.trans leaves) (by simp)
  have formed := wellFormed.relinked relinked (wellFormed.edgeLive enters).2 notRoot outside
  have lists (other : NodeId) (notOld : other ≠ old) (notNew : other ≠ new) :
      ((arena.detach id).attach new (some front.length) id).children other = arena.children other := by
    rw [attachChildren, if_neg notNew, detachChildren leaves, if_neg notOld]
  -- neither of the two parents is in the subtree
  have inner (other : NodeId) (inside : other = id ∨ arena.Below other id) :
      ((arena.detach id).attach new (some front.length) id).children other = arena.children other := by
    refine lists other ?_ ?_
    · rintro rfl
      rcases inside with same | below
      · exact wellFormed.acyclic id (.single (same ▸ leaves))
      · exact wellFormed.acyclic id (.head leaves below)
    · rintro rfl
      exact outside inside
  refine ⟨formed, ⟨front, back, parted, ?_⟩, fun other => ?_, lists, relinked.up, ?_, fun other inside => ?_⟩
  · rw [attachChildren, if_pos rfl, loose, placedBetween]
  · rw [attachChildren, if_neg other, detachChildren leaves, if_pos rfl]
  · intro other
    exact detachGet arena id other
  · rw [wellFormed.walkMem] at inside
    refine ⟨inner other inside, formed.visitsWalk ?_⟩
    rw [inner other inside]
    refine (wellFormed.walkVisits other).transport fun lower listed => inner lower (.inr ?_)
    have below := wellFormed.walkMem.mp listed
    rcases inside with same | above
    · exact same ▸ below
    · exact below.trans above

theorem WellFormed.moveAccepted (wellFormed : arena.WellFormed) (refLive : arena.contains ref = true)
    (idLive : arena.contains id = true) (differs : ref ≠ id) (below : ref ≠ rootId) (away : ¬ arena.Below ref id) :
    ∃ old new result, arena.parent? id = some old ∧ arena.parent? ref = some new ∧
      arena.moveBefore ref id = (true, result) ∧ result.WellFormed ∧ MovedBefore ref id old new arena result ∧
      result.fresh = arena.fresh := by
  obtain ⟨new, enters, -⟩ := wellFormed.parentLive ref refLive below
  -- everything is below the root
  have notRoot : id ≠ rootId := fun same => away (same ▸ wellFormed.belowRoot refLive below)
  obtain ⟨old, leaves, -⟩ := wellFormed.parentLive id idLive notRoot
  obtain ⟨index, found, formed, moved⟩ := wellFormed.movedBefore leaves enters differs away
  refine ⟨old, new, _, leaves, enters, ?_, formed, moved, arena.detachFresh id⟩
  have free : (decide (ref = id) || !arena.contains id || arena.isAncestor id ref) = false := by
    rw [← Bool.not_eq_true, Bool.or_eq_true, wellFormed.isAncestorExact]
    simp [differs, idLive, away]
  rw [moveBefore, free, enters]
  simp [found]

theorem WellFormed.moveRefused (wellFormed : arena.WellFormed)
    (refused : ¬ (arena.contains ref = true ∧ arena.contains id = true ∧ ref ≠ id ∧ ref ≠ rootId ∧
      ¬ arena.Below ref id)) : arena.moveBefore ref id = (false, arena) := by
  rw [moveBefore]
  split
  · rfl
  · next free =>
    rw [Bool.or_eq_true, wellFormed.isAncestorExact] at free
    simp only [Bool.or_eq_true, decide_eq_true_eq, Bool.not_eq_true', not_or, Bool.not_eq_false] at free
    obtain ⟨⟨differs, idLive⟩, away⟩ := free
    cases enters : arena.parent? ref with
    | none => rfl
    | some new =>
      -- with a parent the node is there and is not the root
      refine absurd ⟨(wellFormed.edgeLive enters).1, idLive, differs, ?_, away⟩ refused
      rintro rfl
      exact absurd (wellFormed.rootTop.symm.trans enters) (by simp)

end Moved

theorem nodeMovedExactly (arena : Arena) (wellFormed : arena.WellFormed) (ref id : NodeId) :
    ((arena.moveBefore ref id).1 = true ↔
      arena.contains ref = true ∧ arena.contains id = true ∧ ref ≠ id ∧ ref ≠ rootId ∧
      ¬ arena.Below ref id) ∧
    ((arena.moveBefore ref id).1 = false → (arena.moveBefore ref id).2 = arena) ∧
    ((arena.moveBefore ref id).1 = true →
      (arena.moveBefore ref id).2.WellFormed ∧
      ∃ old new, arena.parent? id = some old ∧ arena.parent? ref = some new ∧
        MovedBefore ref id old new arena (arena.moveBefore ref id).2) := by
  by_cases guards : arena.contains ref = true ∧ arena.contains id = true ∧ ref ≠ id ∧ ref ≠ rootId ∧
      ¬ arena.Below ref id
  · obtain ⟨refLive, idLive, differs, below, away⟩ := guards
    obtain ⟨old, new, result, leaves, enters, accepted, formed, moved, -⟩ :=
      wellFormed.moveAccepted refLive idLive differs below away
    rw [accepted]
    exact ⟨⟨fun _ => ⟨refLive, idLive, differs, below, away⟩, fun _ => rfl⟩, fun refused => (by cases refused),
      fun _ => ⟨formed, old, new, leaves, enters, moved⟩⟩
  · rw [wellFormed.moveRefused guards]
    exact ⟨⟨fun accepted => (by cases accepted), fun allowed => absurd allowed guards⟩, fun _ => rfl,
      fun accepted => (by cases accepted)⟩

def nestedArena : Arena :=
  [(0, .rule "a"), (1, .rule "b"), (2, .declaration "c" "d"), (1, .rule "e"), (4, .declaration "f" "g"),
    (0, .rule "h")].foldl (fun arena (parent, data) => (arena.pushChild parent data).2) empty

theorem nestedWellFormed : nestedArena.WellFormed :=
  emptyWellFormed |>.grown none (.rule "a") (by decide : _ = true) |>.grown none (.rule "b") (by decide : _ = true)
    |>.grown none (.declaration "c" "d") (by decide : _ = true) |>.grown none (.rule "e") (by decide : _ = true)
    |>.grown none (.declaration "f" "g") (by decide : _ = true) |>.grown none (.rule "h") (by decide : _ = true)

theorem nodeMovedAmongSiblings :
    nestedArena.children 1 = [2, 4] ∧
      (∃ result, nestedArena.moveBefore 2 4 = (true, result) ∧ MovedBefore 2 4 1 1 nestedArena result ∧
        result.children 1 = [4, 2]) ∧
      ∃ result, nestedArena.moveBefore 3 1 = (false, result) ∧ result = nestedArena := by
  obtain ⟨-, old, new, leaves, enters, moved⟩ :=
    (nodeMovedExactly nestedArena nestedWellFormed 2 4).2.2 (by decide)
  obtain rfl : 1 = old := Option.some.inj leaves
  obtain rfl : 1 = new := Option.some.inj enters
  exact ⟨by decide, ⟨_, rfl, moved, by decide⟩,
    ⟨_, rfl, (nodeMovedExactly nestedArena nestedWellFormed 3 1).2.1 (by decide)⟩⟩

end SheetLint.Arena
