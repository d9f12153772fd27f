import Mathlib.Data.List.Perm.Basic
import SheetLint.Proofs.TopDownFix

/-! Taking a node out of a sheet. What is asked of the sheet afterwards is answered from the sheet before:
the node and all that was below it are gone, every other node has its payload, its parent and its children
but for the one that was taken out. -/
namespace SheetLint

namespace Forest
variable {f : Forest Node} {id other : NodeId} {data : NodeData} {children : Forest Node}

theorem eraseRoots (f : Forest Node) (id : NodeId) :
    (f.erase id).roots.map Node.id = (f.roots.map Node.id).filter (· ≠ id) := by
  induction f with
  | nil => rfl
  | cons node sub next _ ih =>
    by_cases top : node.id = id
    · simp only [erase, if_pos top, roots, List.map_cons]
      rw [List.filter_cons_of_neg (by simp [top]), ih]
    · simp only [erase, if_neg top, roots, List.map_cons]
      rw [List.filter_cons_of_pos (by simp [top]), ih]

theorem eraseFilter (once : f.ids.Nodup) (found : f.find? id = some (data, children)) :
    (f.erase id).ids = f.ids.filter fun other => other ∉ id :: children.ids := by
  -- both are what is left of the identifiers in their old order, so that it is enough to count them
  have parts := eraseIds once found
  obtain ⟨-, -, apart⟩ := List.nodup_append.mp (parts.nodup_iff.mp once)
  have gone : (id :: children.ids).filter (fun other => other ∉ id :: children.ids) = [] :=
    List.filter_eq_nil_iff.mpr fun other listed => by simp [listed]
  have left : (f.erase id).ids.filter (fun other => other ∉ id :: children.ids) = (f.erase id).ids :=
    List.filter_eq_self.mpr fun other listed => by simpa using fun taken => apart other taken other listed rfl
  have same := parts.filter fun other => other ∉ id :: children.ids
  rw [List.filter_append, gone, left, List.nil_append] at same
  exact (List.Nodup.perm_iff_eq_of_sublist once (eraseSublist f id) List.filter_sublist).mp same.symm

theorem eraseMem (once : f.ids.Nodup) (found : f.find? id = some (data, children)) :
    other ∈ (f.erase id).ids ↔ other ∈ f.ids ∧ other ≠ id ∧ other ∉ children.ids := by
  rw [eraseFilter once found, List.mem_filter]
  simp

theorem findErase (once : f.ids.Nodup) (left : other ∈ (f.erase id).ids) :
    (f.erase id).find? other = (f.find? other).map fun node => (node.1, node.2.erase id) := by
  induction f with
  | nil => rfl
  | cons node sub next ihc ihn =>
    obtain ⟨topSub, topNext, subOnce, nextOnce, apart⟩ := distinctCons once
    have fewerSub := (eraseSublist sub id).subset
    have fewerNext := (eraseSublist next id).subset
    by_cases top : node.id = id
    · rw [erase, if_pos top] at left ⊢
      have listed := fewerNext left
      have differs : node.id ≠ other := (ne_of_mem_of_not_mem listed topNext).symm
      rw [find?, if_neg differs, findNone fun both => apart other both listed, Option.none_or]
      exact ihn nextOnce left
    · rw [erase, if_neg top] at left ⊢
      rw [find?, find?]
      by_cases same : node.id = other
      · simp only [if_pos same, Option.map_some]
      · rw [if_neg same, if_neg same]
        simp only [idsCons, List.mem_cons, List.mem_append, Ne.symm same, false_or] at left
        rcases left with inside | behind
        · have listed := fewerSub inside
          rw [ihc subOnce inside, findNone (apart other listed), Option.or_none,
            findNone fun both => apart other listed (fewerNext both), Option.or_none]
        · have listed := fewerNext behind
          rw [ihn nextOnce behind, findNone fun both => apart other both listed, Option.none_or,
            findNone fun both => apart other (fewerSub both) listed, Option.none_or]

end Forest

namespace Sheet
open Forest
variable {sheet : Sheet} {id : NodeId}

theorem WellFormed.ofRenumber {fresh : NodeId} (wellFormed : (sheet.renumber fresh).WellFormed) :
    sheet.WellFormed :=
  ⟨wellFormed.rootLive, wellFormed.rootTop, wellFormed.parentLive, wellFormed.parentList, wellFormed.onceInList,
    wellFormed.listLive, wellFormed.acyclic, wellFormed.preorder, wellFormed.walkOnce, wellFormed.walkLive,
    wellFormed.sizeWalk⟩

theorem WellFormed.rearranged (wellFormed : sheet.WellFormed) {body : Forest Node} (once : body.ids.Nodup)
    (old : ∀ id ∈ body.ids, id ∈ sheet.body.ids) : WellFormed { sheet with body } := by
  obtain ⟨fresh, distinct⟩ := wellFormed.distinct
  have kept : Distinct { sheet with body, fresh } := distinct.kept once old
  exact .ofRenumber kept.wellFormed

theorem WellFormed.walkDescends (wellFormed : sheet.WellFormed) {other : NodeId} :
    other ∈ sheet.walk id ↔
      Relation.TransGen (fun above below => sheet.parent? below = some above) id other := by
  have step (top : NodeId) : other ∈ sheet.walk top ↔
      ∃ child ∈ sheet.children top, other = child ∨ other ∈ sheet.walk child := by
    rw [wellFormed.preorder top, List.mem_flatMap]
    simp only [List.mem_cons]
  constructor
  · -- each step down leaves fewer nodes below
    intro inside
    induction length : (sheet.walk id).length using Nat.strongRecOn generalizing id with
    | ind length ih =>
      obtain ⟨child, listed, here⟩ := (step id).mp inside
      have parent := (wellFormed.parentList child id).mpr listed
      rcases here with same | deeper
      · subst same
        exact .single parent
      · have shorter : (sheet.walk child).length < (sheet.walk id).length := by
          rw [wellFormed.preorder id]
          have within := List.sublist_flatten_of_mem
            (List.mem_map_of_mem (f := fun child => child :: sheet.walk child) listed)
          exact within.length_le
        exact .head parent (ih _ (length ▸ shorter) deeper rfl)
  · intro chain
    induction chain using Relation.TransGen.head_induction_on with
    | single parent => exact (step _).mpr ⟨other, (wellFormed.parentList _ _).mp parent, .inl rfl⟩
    | head parent _ ih => exact (step _).mpr ⟨_, (wellFormed.parentList _ _).mp parent, .inr ih⟩

theorem WellFormed.childWalked (wellFormed : sheet.WellFormed) {parent child : NodeId}
    (listed : child ∈ sheet.children parent) (inside : parent = id ∨ parent ∈ sheet.walk id) :
    child ∈ sheet.walk id := by
  have last := (wellFormed.parentList child parent).mpr listed
  rw [wellFormed.walkDescends]
  rcases inside with same | deeper
  · subst same
    exact .single last
  · exact .tail (wellFormed.walkDescends.mp deeper) last

theorem belowChanged (change : Forest Node → Forest Node) (empty : change .nil = .nil) {result : Sheet}
    {other : NodeId}
    (found : result.find? other = (sheet.find? other).map fun node => (node.1, change node.2)) :
    result.get? other = sheet.get? other ∧ result.below other = change (sheet.below other) := by
  unfold Sheet.get? Sheet.below
  rw [found]
  cases sheet.find? other with
  | none => exact ⟨rfl, empty.symm⟩
  | some node => exact ⟨rfl, rfl⟩

/-! ## Removal -/

structure TakenOut (id : NodeId) (sheet result : Sheet) : Prop where
  live : ∀ other, result.contains other = true ↔
    sheet.contains other = true ∧ other ≠ id ∧ other ∉ sheet.walk id
  walk : result.walk rootId = (sheet.walk rootId).filter fun other => other ≠ id ∧ other ∉ sheet.walk id
  data : ∀ other, result.contains other = true → result.get? other = sheet.get? other
  parent : ∀ other, result.contains other = true → result.parent? other = sheet.parent? other
  children : ∀ other, result.contains other = true →
    result.children other = (sheet.children other).filter (· ≠ id)

def without (id : NodeId) (sheet : Sheet) : Sheet := { sheet with body := sheet.body.erase id }

section Without
variable {data : NodeData} {children : Forest Node}

theorem withoutFind (once : sheet.body.ids.Nodup) {other : NodeId}
    (left : (sheet.without id).contains other = true) :
    (sheet.without id).find? other = (sheet.find? other).map fun node => (node.1, node.2.erase id) := by
  by_cases root : other = rootId
  · subst root
    rfl
  · rw [findBody _ root, findBody _ root]
    exact findErase once ((live.mp left).resolve_left root)

theorem withoutChildren (once : sheet.body.ids.Nodup) {other : NodeId}
    (left : (sheet.without id).contains other = true) :
    (sheet.without id).children other = (sheet.children other).filter (· ≠ id) := by
  have same := (belowChanged (Forest.erase id) rfl (withoutFind once left)).2
  rw [Sheet.children, same, eraseRoots]
  rfl

theorem WellFormed.without (wellFormed : sheet.WellFormed) (id : NodeId) : (sheet.without id).WellFormed := by
  have fewer := eraseSublist sheet.body id
  exact wellFormed.rearranged (fewer.nodup wellFormed.once) fun other listed => fewer.subset listed

theorem WellFormed.withoutLive (wellFormed : sheet.WellFormed) (below : id ≠ rootId)
    (found : sheet.find? id = some (data, children)) {other : NodeId} :
    (sheet.without id).contains other = true ↔
      sheet.contains other = true ∧ other ≠ id ∧ other ∉ sheet.walk id := by
  have walked := (childrenFound found).2
  rw [findBody sheet below] at found
  have outside : rootId ∉ children.ids := fun listed =>
    wellFormed.rootOutside ((findBelow found).2 rootId listed)
  have left := @eraseMem _ _ other _ _ wellFormed.once found
  rw [live, live, walked]
  change other = rootId ∨ other ∈ (sheet.body.erase id).ids ↔ _
  rw [left]
  constructor
  · rintro (same | ⟨listed, kept⟩)
    · subst same
      exact ⟨.inl rfl, below.symm, outside⟩
    · exact ⟨.inr listed, kept⟩
  · rintro ⟨same | listed, kept⟩
    · exact .inl same
    · exact .inr ⟨listed, kept⟩

theorem WellFormed.withoutParent (wellFormed : sheet.WellFormed) (below : id ≠ rootId)
    (found : sheet.find? id = some (data, children)) {other : NodeId}
    (left : (sheet.without id).contains other = true) :
    (sheet.without id).parent? other = sheet.parent? other := by
  obtain ⟨-, differs, away⟩ := (wellFormed.withoutLive below found).mp left
  refine Option.ext fun parent => ?_
  rw [(wellFormed.without id).parentList, wellFormed.parentList]
  constructor
  · intro listed
    have parentLeft := ((wellFormed.without id).listLive other parent listed).2
    rw [withoutChildren wellFormed.once parentLeft] at listed
    exact (List.mem_filter.mp listed).1
  · intro listed
    have parentLeft : (sheet.without id).contains parent = true := by
      refine (wellFormed.withoutLive below found).mpr ⟨(wellFormed.listLive other parent listed).2, ?_, ?_⟩
      · exact fun same => away (wellFormed.childWalked listed (.inl same))
      · exact fun inside => away (wellFormed.childWalked listed (.inr inside))
    rw [withoutChildren wellFormed.once parentLeft]
    exact List.mem_filter.mpr ⟨listed, by simpa using differs⟩

theorem WellFormed.takenOut (wellFormed : sheet.WellFormed) (below : id ≠ rootId)
    (found : sheet.find? id = some (data, children)) : TakenOut id sheet (sheet.without id) where
  live := fun _ => wellFormed.withoutLive below found
  walk := by
    rw [(childrenFound found).2]
    rw [findBody sheet below] at found
    exact (eraseFilter wellFormed.once found).trans (List.filter_congr fun other _ => by simp)
  data := fun _ left => (belowChanged (Forest.erase id) rfl (withoutFind wellFormed.once left)).1
  parent := fun _ left => wellFormed.withoutParent below found left
  children := fun _ left => withoutChildren wellFormed.once left

end Without

theorem removedExactly (sheet : Sheet) (wellFormed : sheet.WellFormed) (id : NodeId) :
    (sheet.contains id = true → id ≠ rootId →
      ∃ data result, sheet.get? id = some data ∧ sheet.remove? id = some (data, result) ∧
        sheet.apply (.remove id) = result ∧ result.WellFormed ∧ TakenOut id sheet result) ∧
    (id = rootId ∨ sheet.contains id = false →
      sheet.remove? id = none ∧ sheet.apply (.remove id) = sheet) := by
  constructor
  · intro isLive below
    obtain ⟨⟨data, children⟩, found⟩ := Option.isSome_iff_exists.mp isLive
    have removed : sheet.remove? id = some (data, sheet.without id) := by
      rw [remove?, if_neg below, found]
      rfl
    refine ⟨data, sheet.without id, by rw [Sheet.get?, found]; rfl, removed, ?_, wellFormed.without id,
      wellFormed.takenOut below found⟩
    rw [Sheet.apply, removed]
    rfl
  · intro refused
    have missing : sheet.remove? id = none := by
      rw [remove?]
      split
      · rfl
      · next below =>
        have absent := refused.resolve_left below
        rw [contains, Option.isSome_eq_false_iff, Option.isNone_iff_eq_none] at absent
        rw [absent]
    refine ⟨missing, ?_⟩
    rw [Sheet.apply, missing]
    rfl

end Sheet
end SheetLint
