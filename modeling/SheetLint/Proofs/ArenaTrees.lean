import Mathlib.Data.Finset.Card
import Mathlib.Data.List.Perm.Subperm
import Mathlib.Logic.Relation
import SheetLint.Sheet.Arena

/-! Arenas whose maps agree. `WellFormed` speaks of the three maps alone: the parents and the child lists
are two readings of one relation, in which nothing stands above itself. From this follow what the loops
find: the way up from a node ends at the root, and the stack of a walk brings every node once. -/
namespace SheetLint

namespace Slots
variable {α : Type} (slots : Slots α) (id other : NodeId)

theorem getErase : (slots.erase id).get? other = if other = id then none else slots.get? other := by
  change List.lookup other (slots.entries.filter fun entry => entry.1 ≠ id) = _
  unfold get?
  induction slots.entries with
  | nil => simp
  | cons entry rest ih =>
    by_cases here : entry.1 = id
    · rw [List.filter_cons_of_neg (by simp [here]), ih]
      split
      · rfl
      · next differs =>
        have away : (other == entry.1) = false := beq_false_of_ne (here ▸ differs)
        rw [List.lookup_cons, away]
    · rw [List.filter_cons_of_pos (by simp [here]), List.lookup_cons, List.lookup_cons, ih]
      by_cases same : other = entry.1
      · simp [same, here]
      · rw [beq_false_of_ne same]

theorem getInsert (value : α) :
    (slots.insert id value).get? other = if other = id then some value else slots.get? other := by
  change List.lookup other ((id, value) :: (slots.erase id).entries) = _
  rw [List.lookup_cons]
  by_cases same : other = id
  · rw [beq_iff_eq.mpr same, if_pos same]
  · rw [beq_false_of_ne same, if_neg same]
    exact (slots.getErase id other).trans (if_neg same)

theorem getKeys : (slots.get? id).isSome = true ↔ id ∈ slots.keys := by
  unfold get? keys
  induction slots.entries with
  | nil => simp
  | cons entry rest ih =>
    rw [List.lookup_cons, List.map_cons, List.mem_cons]
    by_cases same : id = entry.1
    · simp [same]
    · rw [beq_false_of_ne same, ih]
      simp [same]

theorem keysOnce : slots.keys.Nodup := slots.once

theorem keysLength : slots.keys.length = slots.size := List.length_map ..

end Slots

namespace Arena
open Sheet (rootId)
variable {arena : Arena} {id : NodeId}

def Below (arena : Arena) : NodeId → NodeId → Prop :=
  Relation.TransGen fun low high => arena.parent? low = some high

structure WellFormed (arena : Arena) : Prop where
  rootLive : arena.contains rootId = true
  rootTop : arena.parent? rootId = none
  parentLive : ∀ id, arena.contains id = true → id ≠ rootId →
    ∃ parent, arena.parent? id = some parent ∧ arena.contains parent = true
  parentList : ∀ id parent, arena.parent? id = some parent ↔ id ∈ arena.children parent
  onceInList : ∀ parent, (arena.children parent).Nodup
  listLive : ∀ id parent, id ∈ arena.children parent →
    arena.contains id = true ∧ arena.contains parent = true
  listOwner : ∀ id, (arena.lists.get? id).isSome = true → arena.contains id = true
  acyclic : ∀ id, ¬ arena.Below id id
  numbered : ∀ id, arena.contains id = true → id < arena.fresh

theorem live : arena.contains id = true ↔ id ∈ arena.nodes.keys := arena.nodes.getKeys id

/-! ## The way up -/

theorem belowSplit {low high : NodeId} :
    arena.Below low high ↔ ∃ parent, arena.parent? low = some parent ∧ (parent = high ∨ arena.Below parent high) := by
  unfold Below
  rw [Relation.TransGen.head'_iff]
  simp only [Relation.reflTransGen_iff_eq_or_transGen, eq_comm]

theorem belowLast {low high : NodeId} :
    arena.Below low high ↔ ∃ child, arena.parent? child = some high ∧ (low = child ∨ arena.Below low child) := by
  unfold Below
  rw [Relation.TransGen.tail'_iff]
  simp only [Relation.reflTransGen_iff_eq_or_transGen, and_comm, eq_comm]

theorem belowLinear {low one other : NodeId} (first : low = one ∨ arena.Below low one)
    (second : low = other ∨ arena.Below low other) :
    one = other ∨ arena.Below one other ∨ arena.Below other one := by
  have unique : Relator.RightUnique fun low high => arena.parent? low = some high :=
    fun _ _ _ up up' => Option.some.inj (up.symm.trans up')
  have chains (high : NodeId) (above : low = high ∨ arena.Below low high) :
      Relation.ReflTransGen (fun low high => arena.parent? low = some high) low high :=
    Relation.reflTransGen_iff_eq_or_transGen.mpr (above.imp_left Eq.symm)
  rcases (chains one first).total_of_right_unique unique (chains other second) with up | up
  · exact (Relation.reflTransGen_iff_eq_or_transGen.mp up).imp Eq.symm .inl
  · exact (Relation.reflTransGen_iff_eq_or_transGen.mp up).imp id .inr

theorem ascendExact {depth : NodeId → Nat}
    (up : ∀ id parent, arena.parent? id = some parent → depth parent < depth id)
    (ancestor : NodeId) (steps : Nat) (id : NodeId) (enough : depth id ≤ steps) :
    arena.ascend ancestor steps id = true ↔ arena.Below id ancestor := by
  rw [belowSplit]
  induction steps generalizing id with
  | zero =>
    have top : arena.parent? id = none :=
      Option.eq_none_iff_forall_ne_some.mpr fun parent found => by have := up id parent found; omega
    simp [ascend, top]
  | succ steps ih =>
    rw [ascend]
    cases found : arena.parent? id with
    | none => simp
    | some parent =>
      have less := up id parent found
      have rest := ih parent (by omega)
      by_cases here : parent = ancestor
      · simp [here]
      · simp [here, rest, ← belowSplit]

namespace WellFormed
variable (wellFormed : arena.WellFormed)
include wellFormed

theorem edgeLive {low high : NodeId} (up : arena.parent? low = some high) :
    arena.contains low = true ∧ arena.contains high = true :=
  wellFormed.listLive low high ((wellFormed.parentList low high).mp up)

theorem belowLive {low high : NodeId} (below : arena.Below low high) :
    arena.contains low = true ∧ arena.contains high = true := by
  induction below with
  | single up => exact wellFormed.edgeLive up
  | tail _ up ih => exact ⟨ih.1, (wellFormed.edgeLive up).2⟩

theorem missing (gone : ¬ arena.contains id = true) : arena.parent? id = none ∧ arena.children id = [] := by
  constructor
  · refine Option.eq_none_iff_forall_ne_some.mpr fun parent up => gone (wellFormed.edgeLive up).1
  · refine List.eq_nil_iff_forall_not_mem.mpr fun child listed => gone (wellFormed.listLive child id listed).2

open Classical in
theorem depth : ∃ depth : NodeId → Nat,
    (∀ id parent, arena.parent? id = some parent → depth parent < depth id) ∧
    ∀ id, depth id ≤ arena.size := by
  let above (id : NodeId) : Finset NodeId := arena.nodes.keys.toFinset.filter (arena.Below id)
  refine ⟨fun id => (above id).card, fun id parent up => ?_, fun id => ?_⟩
  · apply Finset.card_lt_card
    refine Finset.ssubset_iff_subset_ne.mpr ⟨fun high inside => ?_, fun same => ?_⟩
    · obtain ⟨listed, above⟩ := Finset.mem_filter.mp inside
      exact Finset.mem_filter.mpr ⟨listed, .head up above⟩
    · -- the parent is above its child and not above itself
      have isLive := (wellFormed.edgeLive up).2
      have inside : parent ∈ above id :=
        Finset.mem_filter.mpr ⟨List.mem_toFinset.mpr (live.mp isLive), .single up⟩
      rw [← same] at inside
      exact wellFormed.acyclic parent (Finset.mem_filter.mp inside).2
  · calc (above id).card
      _ ≤ arena.nodes.keys.toFinset.card := Finset.card_filter_le ..
      _ ≤ arena.nodes.keys.length := List.toFinset_card_le _
      _ = arena.size := arena.nodes.keysLength

theorem isAncestorExact (ancestor id : NodeId) :
    arena.isAncestor ancestor id = true ↔ arena.Below id ancestor := by
  obtain ⟨depth, up, bound⟩ := wellFormed.depth
  exact ascendExact up ancestor arena.size id (bound id)

theorem belowRoot (isLive : arena.contains id = true) (notRoot : id ≠ rootId) : arena.Below id rootId := by
  obtain ⟨depth, up, -⟩ := wellFormed.depth
  induction deep : depth id using Nat.strongRecOn generalizing id with
  | ind deep ih =>
    obtain ⟨parent, found, parentLive⟩ := wellFormed.parentLive id isLive notRoot
    by_cases top : parent = rootId
    · exact .single (top ▸ found)
    · exact .head found (ih _ (deep ▸ up id parent found) parentLive top rfl)

end WellFormed

/-! ## Walks -/

/- The recursive pre-order from a list of nodes: each, then what is below it, then the rest. -/
inductive Visits (arena : Arena) : List NodeId → List NodeId → Prop where
  | nil : Visits arena [] []
  | cons {id : NodeId} {stack below after : List NodeId} (inner : Visits arena (arena.children id) below)
      (rest : Visits arena stack after) : Visits arena (id :: stack) (id :: (below ++ after))

def Apart (arena : Arena) (ids : List NodeId) : Prop :=
  ids.Pairwise fun one other => one ≠ other ∧ ¬ arena.Below one other ∧ ¬ arena.Below other one

theorem visitExact {ids order : List NodeId} (visits : arena.Visits ids order) (stack : List NodeId)
    (steps : Nat) : arena.visit (order.length + steps) (ids ++ stack) = order ++ arena.visit steps stack := by
  induction visits generalizing stack steps with
  | nil => simp
  | cons inner rest ihInner ihRest =>
    rename_i id _ below after
    have count : (id :: (below ++ after)).length + steps = below.length + (after.length + steps) + 1 := by
      simp only [List.length_cons, List.length_append]
      omega
    rw [count, List.cons_append, visit, ihInner, ihRest]
    simp

namespace WellFormed
variable (wellFormed : arena.WellFormed)
include wellFormed

theorem visitsMem {ids order : List NodeId} (visits : arena.Visits ids order) (other : NodeId) :
    other ∈ order ↔ ∃ id ∈ ids, other = id ∨ arena.Below other id := by
  induction visits with
  | nil => simp
  | @cons id stack below after inner rest ihInner ihRest =>
    have under : arena.Below other id ↔ other ∈ below := by
      rw [ihInner, belowLast]
      simp only [wellFormed.parentList]
    rw [List.mem_cons, List.mem_append, ihRest, ← under]
    simp only [List.mem_cons, exists_eq_or_imp, or_assoc]

theorem siblingsApart (parent : NodeId) : arena.Apart (arena.children parent) := by
  refine (List.nodup_iff_pairwise_ne.mp (wellFormed.onceInList parent)).imp_of_mem ?_
  intro one other first second differs
  -- a sibling above another would be above the parent of both, which is above it
  have never (low high : NodeId) (inside : low ∈ arena.children parent)
      (above : high ∈ arena.children parent) : ¬ arena.Below low high := by
    intro below
    have up := (wellFormed.parentList low parent).mpr inside
    have upHigh := (wellFormed.parentList high parent).mpr above
    obtain ⟨parent', found, next⟩ := belowSplit.mp below
    obtain rfl : parent = parent' := Option.some.inj (up.symm.trans found)
    rcases next with same | next
    · exact wellFormed.acyclic parent (.single (same ▸ upHigh))
    · exact wellFormed.acyclic parent (.tail next upHigh)
  exact ⟨differs, never one other first second, never other one second first⟩

theorem visitsOnce {ids order : List NodeId} (visits : arena.Visits ids order) (apart : arena.Apart ids) :
    order.Nodup := by
  induction visits with
  | nil => exact List.nodup_nil
  | @cons id stack below after inner rest ihInner ihRest =>
    obtain ⟨away, apart⟩ := List.pairwise_cons.mp apart
    have under (other : NodeId) (inside : other ∈ below) : arena.Below other id := by
      rw [belowLast]
      simpa only [wellFormed.parentList] using (wellFormed.visitsMem inner other).mp inside
    have behind (other : NodeId) (inside : other ∈ after) : ¬ (other = id ∨ arena.Below other id) := by
      obtain ⟨top, listed, above⟩ := (wellFormed.visitsMem rest other).mp inside
      obtain ⟨differs, notBelow, notAbove⟩ := away top listed
      intro here
      rcases belowLinear here above with same | lower | higher
      · exact differs same
      · exact notBelow lower
      · exact notAbove higher
    rw [List.nodup_cons, List.mem_append, List.nodup_append]
    refine ⟨?_, ihInner (wellFormed.siblingsApart id), ihRest apart, ?_⟩
    · rintro (inside | inside)
      · exact wellFormed.acyclic id (under id inside)
      · exact behind id inside (.inl rfl)
    · rintro other inside _ outside rfl
      exact behind other outside (.inr (under other inside))

theorem visitsExist (id : NodeId) : ∃ order, arena.Visits (arena.children id) order := by
  obtain ⟨depth, up, bound⟩ := wellFormed.depth
  -- children are deeper, and nothing is deeper than the number of nodes
  induction left : arena.size - depth id using Nat.strongRecOn generalizing id with
  | ind left ih =>
    have each (child : NodeId) (listed : child ∈ arena.children id) :
        ∃ order, arena.Visits (arena.children child) order := by
      have deeper := up child id ((wellFormed.parentList child id).mpr listed)
      have within := bound child
      exact ih _ (by omega) child rfl
    generalize arena.children id = ids at each
    induction ids with
    | nil => exact ⟨[], .nil⟩
    | cons child rest ihRest =>
      obtain ⟨below, inner⟩ := each child List.mem_cons_self
      obtain ⟨after, outer⟩ := ihRest fun other listed => each other (List.mem_cons_of_mem _ listed)
      exact ⟨_, .cons inner outer⟩

theorem visitsWalk {order : List NodeId} (visits : arena.Visits (arena.children id) order) :
    arena.walk id = order := by
  have once := wellFormed.visitsOnce visits (wellFormed.siblingsApart id)
  have within : order ⊆ arena.nodes.keys := by
    intro other inside
    obtain ⟨child, listed, below⟩ := (wellFormed.visitsMem visits other).mp inside
    rcases below with same | below
    · exact live.mp (same ▸ (wellFormed.listLive child id listed).1)
    · exact live.mp (wellFormed.belowLive below).1
  have short : order.length ≤ arena.size := by
    rw [size, ← arena.nodes.keysLength]
    exact (List.subperm_of_subset once within).length_le
  have exact := visitExact visits [] (arena.size - order.length)
  rw [Nat.add_sub_cancel' short, List.append_nil] at exact
  rw [walk, exact]
  have done : arena.visit (arena.size - order.length) [] = [] := by
    cases arena.size - order.length <;> rfl
  rw [done, List.append_nil]

theorem walkVisits (id : NodeId) : arena.Visits (arena.children id) (arena.walk id) := by
  obtain ⟨order, visits⟩ := wellFormed.visitsExist id
  rw [wellFormed.visitsWalk visits]
  exact visits

theorem walkMem {other : NodeId} : other ∈ arena.walk id ↔ arena.Below other id := by
  rw [wellFormed.visitsMem (wellFormed.walkVisits id), belowLast]
  simp only [wellFormed.parentList]

theorem visitsFlat {ids order : List NodeId} (visits : arena.Visits ids order) :
    order = ids.flatMap fun child => child :: arena.walk child := by
  induction visits with
  | nil => rfl
  | cons inner rest _ ihRest =>
    rw [List.flatMap_cons, ← ihRest, wellFormed.visitsWalk inner, List.cons_append]

end WellFormed

structure Walked (arena : Arena) : Prop where
  preorder : ∀ id, arena.walk id = (arena.children id).flatMap fun child => child :: arena.walk child
  walkOnce : ∀ id, (arena.walk id).Nodup
  walkLive : ∀ id, arena.contains id = true ↔ id = rootId ∨ id ∈ arena.walk rootId
  sizeWalk : arena.size = 1 + (arena.walk rootId).length

theorem WellFormed.walked (wellFormed : arena.WellFormed) : arena.Walked := by
  have once (id : NodeId) : (arena.walk id).Nodup :=
    wellFormed.visitsOnce (wellFormed.walkVisits id) (wellFormed.siblingsApart id)
  have isLive (id : NodeId) : arena.contains id = true ↔ id = rootId ∨ id ∈ arena.walk rootId := by
    rw [wellFormed.walkMem]
    constructor
    · intro isLive
      by_cases root : id = rootId
      · exact .inl root
      · exact .inr (wellFormed.belowRoot isLive root)
    · rintro (rfl | below)
      · exact wellFormed.rootLive
      · exact (wellFormed.belowLive below).1
  refine ⟨fun id => wellFormed.visitsFlat (wellFormed.walkVisits id), once, isLive, ?_⟩
  have all : (rootId :: arena.walk rootId).Nodup :=
    List.nodup_cons.mpr ⟨fun inside => wellFormed.acyclic _ (wellFormed.walkMem.mp inside), once rootId⟩
  have same : arena.nodes.keys.Perm (rootId :: arena.walk rootId) :=
    (List.perm_ext_iff_of_nodup arena.nodes.keysOnce all).mpr fun id => by
      rw [← live, isLive, List.mem_cons]
  rw [size, ← arena.nodes.keysLength, same.length_eq, List.length_cons, Nat.add_comm]

end Arena
end SheetLint
