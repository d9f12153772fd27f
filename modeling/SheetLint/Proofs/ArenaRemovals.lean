import SheetLint.Proofs.ArenaMoves

/-! Removal with a stack of nodes that are still to go. What has gone is always inside of the subtree, and
the children of what has gone have gone or are on the stack; with the stack empty it is the whole subtree.
The maps have no entry left for any of it, and those of the other nodes are as they were. -/
namespace SheetLint.Arena
open Sheet (rootId)
variable {arena start now : Arena} {id other old : NodeId} {gone : NodeId → Prop}

/-! ## The loop -/

structure Dropped (gone : NodeId → Prop) (start now : Arena) : Prop where
  taken : ∀ other, gone other →
    now.get? other = none ∧ now.lists.get? other = none ∧ now.parent? other = none
  kept : ∀ other, ¬ gone other →
    now.get? other = start.get? other ∧ now.lists.get? other = start.lists.get? other ∧
      now.parent? other = start.parent? other
  fresh : now.fresh = start.fresh

theorem dropViews (arena : Arena) (id other : NodeId) :
    (arena.drop id).get? other = (if other = id then none else arena.get? other) ∧
    (arena.drop id).lists.get? other = (if other = id then none else arena.lists.get? other) ∧
    (arena.drop id).parent? other = if other = id then none else arena.parent? other :=
  ⟨arena.nodes.getErase id other, arena.lists.getErase id other, arena.parents.getErase id other⟩

theorem Dropped.drop (dropped : Dropped gone start now) (id : NodeId) :
    Dropped (fun other => other = id ∨ gone other) start (now.drop id) := by
  refine ⟨fun other either => ?_, fun other neither => ?_, dropped.fresh⟩
  · obtain ⟨nodes, lists, parents⟩ := now.dropViews id other
    by_cases same : other = id
    · rw [nodes, lists, parents, if_pos same, if_pos same, if_pos same]
      exact ⟨rfl, rfl, rfl⟩
    · rw [nodes, lists, parents, if_neg same, if_neg same, if_neg same]
      exact dropped.taken other (either.resolve_left same)
  · obtain ⟨differs, before⟩ := not_or.mp neither
    obtain ⟨nodes, lists, parents⟩ := now.dropViews id other
    rw [nodes, lists, parents, if_neg differs, if_neg differs, if_neg differs]
    exact dropped.kept other before

theorem Dropped.children (dropped : Dropped gone start now) (other : NodeId) :
    (gone other → now.children other = []) ∧ (¬ gone other → now.children other = start.children other) := by
  refine ⟨fun taken => ?_, fun kept => ?_⟩
  · rw [Arena.children, (dropped.taken other taken).2.1]
    rfl
  · rw [Arena.children, (dropped.kept other kept).2.1, Arena.children]

/- How the loop stands: what has gone or is still to go is `inside`, and a child of what has gone is one or
the other. -/
structure Sweeping (inside gone : NodeId → Prop) (start now : Arena) (stack : List NodeId) : Prop where
  dropped : Dropped gone start now
  within : ∀ other, gone other ∨ other ∈ stack → inside other
  owed : ∀ other, gone other → ∀ child ∈ start.children other, gone child ∨ child ∈ stack

theorem Sweeping.step {inside : NodeId → Prop} {current : NodeId} {stack : List NodeId}
    (closed : ∀ other, inside other → ∀ child ∈ start.children other, inside child)
    (sweeping : Sweeping inside gone start now (current :: stack)) :
    Sweeping inside (fun other => other = current ∨ gone other) start (now.drop current)
      ((now.children current).reverse ++ stack) := by
  obtain ⟨dropped, within, owed⟩ := sweeping
  have own : inside current := within current (.inr List.mem_cons_self)
  -- what comes on the stack are children that are still there
  have pushed (child : NodeId) (listed : child ∈ now.children current) : child ∈ start.children current := by
    by_cases taken : gone current
    · rw [(dropped.children current).1 taken] at listed
      cases listed
    · rwa [(dropped.children current).2 taken] at listed
  refine ⟨dropped.drop current, ?_, ?_⟩
  · rintro other ((same | taken) | listed)
    · exact same ▸ own
    · exact within other (.inl taken)
    · rcases List.mem_append.mp listed with child | listed
      · exact closed current own other (pushed other (List.mem_reverse.mp child))
      · exact within other (.inr (List.mem_cons_of_mem _ listed))
  · intro other either child listed
    by_cases taken : gone other
    · rcases owed other taken child listed with before | later
      · exact .inl (.inr before)
      · rcases List.mem_cons.mp later with same | later
        · exact .inl (.inl same)
        · exact .inr (List.mem_append.mpr (.inr later))
    · obtain rfl := either.resolve_right taken
      rw [← (dropped.children other).2 taken] at listed
      exact .inr (List.mem_append.mpr (.inl (List.mem_reverse.mpr listed)))

theorem sweepDropped {inside : NodeId → Prop}
    (closed : ∀ other, inside other → ∀ child ∈ start.children other, inside child)
    (id : NodeId) (removed : Option NodeData) (stack : List NodeId)
    (sweeping : Sweeping inside gone start now stack) :
    ∃ all : NodeId → Prop, Sweeping inside all start (now.sweep id removed stack).2 [] ∧
      ∀ other, gone other ∨ other ∈ stack → all other := by
  fun_induction Arena.sweep now id removed stack generalizing gone with
  | case1 => exact ⟨gone, sweeping, fun other either => either.resolve_right List.not_mem_nil⟩
  | case2 now removed current stack ih =>
    obtain ⟨all, done, outer⟩ := ih (sweeping.step closed)
    refine ⟨all, done, ?_⟩
    rintro other (taken | listed)
    · exact outer other (.inl (.inr taken))
    · rcases List.mem_cons.mp listed with same | listed
      · exact outer other (.inl (.inl same))
      · exact outer other (.inr (List.mem_append.mpr (.inr listed)))

theorem sweepPayload (id : NodeId) (removed : Option NodeData) (stack : List NodeId)
    (absent : id ∉ stack) (unlisted : ∀ other, id ∉ now.children other) :
    (now.sweep id removed stack).1 = removed := by
  fun_induction Arena.sweep now id removed stack with
  | case1 => rfl
  | case2 now removed current stack ih =>
    have differs : current ≠ id := fun same => absent (same ▸ List.mem_cons_self)
    rw [dif_neg differs] at ih
    rw [if_neg differs]
    refine ih ?_ ?_
    · intro listed
      rcases List.mem_append.mp listed with child | listed
      · exact unlisted current (List.mem_reverse.mp child)
      · exact absent (List.mem_cons_of_mem _ listed)
    · intro other listed
      rw [children, (now.dropViews current other).2.1] at listed
      split at listed
      · cases listed
      · exact unlisted other listed

/-! ## Removal -/

/- What an arena answers when `id` and all that was below it have gone. -/
structure TakenOut (id : NodeId) (arena result : Arena) : Prop where
  live : ∀ other, result.contains other = true ↔
    arena.contains other = true ∧ other ≠ id ∧ other ∉ arena.walk id
  walk : result.walk rootId = (arena.walk rootId).filter fun other => other ≠ id ∧ other ∉ arena.walk id
  data : ∀ other, result.contains other = true → result.get? other = arena.get? other
  parent : ∀ other, result.contains other = true → result.parent? other = arena.parent? other
  children : ∀ other, result.contains other = true →
    result.children other = (arena.children other).filter (· ≠ id)
  cleared : ∀ other, result.contains other = false →
    result.lists.get? other = none ∧ result.parents.get? other = none

namespace WellFormed
variable (wellFormed : arena.WellFormed) (leaves : arena.parent? id = some old)
include wellFormed leaves

theorem looseUnlisted (other : NodeId) : id ∉ (arena.detach id).children other := by
  rw [wellFormed.looseChildren leaves]
  simp

theorem parentOutside : ¬ (old = id ∨ old ∈ arena.walk id) := by
  rw [wellFormed.walkMem]
  rintro (same | below)
  · exact wellFormed.acyclic id (.single (same ▸ leaves))
  · exact wellFormed.acyclic id (.head leaves below)

theorem subtreeDropped (removed : Option NodeData) :
    Dropped (fun other => other = id ∨ other ∈ arena.walk id) (arena.detach id)
      ((arena.detach id).sweep id removed [id]).2 := by
  have outside := wellFormed.parentOutside leaves
  have lists (other : NodeId) (inside : other = id ∨ other ∈ arena.walk id) :
      (arena.detach id).children other = arena.children other := by
    rw [detachChildren leaves, if_neg]
    rintro rfl
    exact outside inside
  have closed : ∀ other, other = id ∨ other ∈ arena.walk id →
      ∀ child ∈ (arena.detach id).children other, child = id ∨ child ∈ arena.walk id := by
    intro other inside child listed
    rw [lists other inside] at listed
    have up := (wellFormed.parentList child other).mpr listed
    rw [wellFormed.walkMem] at inside ⊢
    rcases inside with same | below
    · exact .inr (.single (same ▸ up))
    · exact .inr (.head up below)
  have untouched : Dropped (fun _ => False) (arena.detach id) (arena.detach id) :=
    ⟨fun _ => False.elim, fun _ _ => ⟨rfl, rfl, rfl⟩, rfl⟩
  obtain ⟨all, ⟨dropped, inner, owed⟩, outer⟩ :=
    sweepDropped closed id removed [id] ⟨untouched, by simp, fun _ => False.elim⟩
  have top : all id := outer id (.inr List.mem_cons_self)
  have allClosed (other : NodeId) (taken : all other) (child : NodeId)
      (listed : child ∈ (arena.detach id).children other) : all child :=
    (owed other taken child listed).resolve_right List.not_mem_nil
  -- from the node down every child of what has gone has gone
  have whole (other : NodeId) (inside : other = id ∨ other ∈ arena.walk id) : all other := by
    rw [wellFormed.walkMem] at inside
    rcases inside with same | below
    · exact same ▸ top
    · induction below using Relation.TransGen.head_induction_on with
      | single up =>
        refine allClosed id top _ ?_
        rw [lists id (.inl rfl)]
        exact (wellFormed.parentList _ _).mp up
      | head up below ih =>
        refine allClosed _ ih _ ?_
        rw [lists _ (.inr (wellFormed.walkMem.mpr below))]
        exact (wellFormed.parentList _ _).mp up
  have same : all = fun other => other = id ∨ other ∈ arena.walk id :=
    funext fun other => propext ⟨fun taken => inner other (.inl taken), whole other⟩
  rwa [same] at dropped

theorem removed (notRoot : id ≠ rootId) :
    arena.remove id = (arena.get? id, ((arena.detach id).sweep id none [id]).2) := by
  have isLive := (wellFormed.edgeLive leaves).1
  have payload : ((arena.detach id).sweep id none [id]).1 = arena.get? id := by
    rw [sweep, if_pos rfl, sweepPayload, detachGet]
    · rw [List.append_nil, List.mem_reverse]
      exact wellFormed.looseUnlisted leaves id
    · intro other listed
      rw [children, ((arena.detach id).dropViews id other).2.1] at listed
      split at listed
      · cases listed
      · exact wellFormed.looseUnlisted leaves other listed
  rw [remove, if_neg (by simp [notRoot, isLive]), ← payload]

end WellFormed

section Removed
variable {result : Arena}

theorem WellFormed.childInside (wellFormed : arena.WellFormed) {parent child : NodeId}
    (listed : child ∈ arena.children parent) :
    child ∈ arena.walk id ↔ parent = id ∨ parent ∈ arena.walk id := by
  have up := (wellFormed.parentList child parent).mpr listed
  rw [wellFormed.walkMem, wellFormed.walkMem, belowSplit, up]
  simp

variable (dropped : Dropped (fun other => other = id ∨ other ∈ arena.walk id) (arena.detach id) result)
include dropped

theorem droppedGet (outside : ¬ (other = id ∨ other ∈ arena.walk id)) : result.get? other = arena.get? other :=
  (dropped.kept other outside).1.trans (arena.detachGet id other)

theorem droppedLive : result.contains other = true ↔
    arena.contains other = true ∧ ¬ (other = id ∨ other ∈ arena.walk id) := by
  change (result.get? other).isSome = true ↔ (arena.get? other).isSome = true ∧ _
  by_cases inside : other = id ∨ other ∈ arena.walk id
  · simp [(dropped.taken other inside).1, inside]
  · simp [droppedGet dropped inside, inside]

theorem droppedParent {parent : NodeId} : result.parent? other = some parent ↔
    arena.parent? other = some parent ∧ ¬ (other = id ∨ other ∈ arena.walk id) := by
  by_cases inside : other = id ∨ other ∈ arena.walk id
  · simp [(dropped.taken other inside).2.2, inside]
  · rw [(dropped.kept other inside).2.2, detachParent, if_neg (not_or.mp inside).1]
    simp [inside]

variable (wellFormed : arena.WellFormed) (leaves : arena.parent? id = some old)
include wellFormed leaves

theorem droppedChildren (outside : ¬ (other = id ∨ other ∈ arena.walk id)) :
    result.children other = (arena.children other).filter (· ≠ id) := by
  rw [(dropped.children other).2 outside, wellFormed.looseChildren leaves]

theorem droppedListed {parent : NodeId} : other ∈ result.children parent ↔
    other ∈ arena.children parent ∧ ¬ (other = id ∨ other ∈ arena.walk id) := by
  by_cases inside : parent = id ∨ parent ∈ arena.walk id
  · rw [(dropped.children parent).1 inside]
    refine ⟨fun listed => (by cases listed), fun ⟨listed, outside⟩ => ?_⟩
    exact absurd (.inr ((wellFormed.childInside listed).mpr inside)) outside
  · rw [droppedChildren dropped wellFormed leaves inside, List.mem_filter, decide_eq_true_eq]
    refine and_congr_right fun listed => ?_
    rw [wellFormed.childInside listed]
    simp [inside]

theorem droppedWellFormed (notRoot : id ≠ rootId) : result.WellFormed where
  rootLive := by
    refine (droppedLive dropped).mpr ⟨wellFormed.rootLive, ?_⟩
    rintro (same | below)
    · exact notRoot same.symm
    · obtain ⟨parent, up, -⟩ := belowSplit.mp (wellFormed.walkMem.mp below)
      exact absurd (wellFormed.rootTop.symm.trans up) (by simp)
  rootTop := by
    refine Option.eq_none_iff_forall_ne_some.mpr fun parent up => ?_
    exact absurd (wellFormed.rootTop.symm.trans ((droppedParent dropped).mp up).1) (by simp)
  parentLive := by
    intro other isLive below
    obtain ⟨before, outside⟩ := (droppedLive dropped).mp isLive
    obtain ⟨parent, up, parentLive⟩ := wellFormed.parentLive other before below
    refine ⟨parent, (droppedParent dropped).mpr ⟨up, outside⟩, (droppedLive dropped).mpr ⟨parentLive, ?_⟩⟩
    exact fun inside => outside (.inr ((wellFormed.childInside ((wellFormed.parentList _ _).mp up)).mpr inside))
  parentList := by
    intro other parent
    rw [droppedParent dropped, droppedListed dropped wellFormed leaves, wellFormed.parentList]
  onceInList := by
    intro parent
    by_cases inside : parent = id ∨ parent ∈ arena.walk id
    · rw [(dropped.children parent).1 inside]
      exact List.nodup_nil
    · rw [droppedChildren dropped wellFormed leaves inside]
      exact (wellFormed.onceInList parent).filter _
  listLive := by
    intro other parent listed
    obtain ⟨before, outside⟩ := (droppedListed dropped wellFormed leaves).mp listed
    obtain ⟨isLive, parentLive⟩ := wellFormed.listLive other parent before
    refine ⟨(droppedLive dropped).mpr ⟨isLive, outside⟩, (droppedLive dropped).mpr ⟨parentLive, ?_⟩⟩
    exact fun inside => outside (.inr ((wellFormed.childInside before).mpr inside))
  listOwner := by
    intro other kept
    have outside : ¬ (other = id ∨ other ∈ arena.walk id) := by
      intro inside
      rw [(dropped.taken other inside).2.1] at kept
      cases kept
    rw [(dropped.kept other outside).2.1] at kept
    exact (droppedLive dropped).mpr ⟨wellFormed.listOwner other (arena.detachLists id other kept), outside⟩
  acyclic := by
    intro other cycle
    have before : ∀ low high, result.parent? low = some high → arena.parent? low = some high :=
      fun _ _ up => ((droppedParent dropped).mp up).1
    exact wellFormed.acyclic other (Relation.TransGen.mono before other other cycle)
  numbered := by
    intro other isLive
    rw [dropped.fresh, detachFresh]
    exact wellFormed.numbered other ((droppedLive dropped).mp isLive).1

theorem droppedVisits {ids order : List NodeId} (visits : arena.Visits ids order) :
    result.Visits (ids.filter fun other => other ≠ id ∧ other ∉ arena.walk id)
      (order.filter fun other => other ≠ id ∧ other ∉ arena.walk id) := by
  induction visits with
  | nil => exact .nil
  | @cons node stack below after inner rest ihInner ihRest =>
    rw [List.filter_cons, List.filter_cons, List.filter_append]
    by_cases inside : node = id ∨ node ∈ arena.walk id
    · -- all that is below a node that has gone has gone
      have none : below.filter (fun other => other ≠ id ∧ other ∉ arena.walk id) = [] := by
        refine List.filter_eq_nil_iff.mpr fun other listed => ?_
        obtain ⟨child, childListed, lower⟩ := (wellFormed.visitsMem inner other).mp listed
        have here := (wellFormed.childInside childListed).mpr inside
        have gone : other ∈ arena.walk id := by
          rcases lower with same | lower
          · exact same ▸ here
          · exact wellFormed.walkMem.mpr (lower.trans (wellFormed.walkMem.mp here))
        simp [gone]
      have outside : ¬ (node ≠ id ∧ node ∉ arena.walk id) := by tauto
      rw [none, decide_eq_false outside, List.nil_append]
      exact ihRest
    · have outside : node ≠ id ∧ node ∉ arena.walk id := not_or.mp inside
      have lists : result.children node =
          (arena.children node).filter fun other => other ≠ id ∧ other ∉ arena.walk id := by
        rw [droppedChildren dropped wellFormed leaves inside]
        refine List.filter_congr fun child listed => ?_
        simp [wellFormed.childInside listed, inside]
      rw [decide_eq_true outside, if_pos rfl, if_pos rfl]
      exact .cons (lists ▸ ihInner) ihRest

theorem droppedTakenOut (notRoot : id ≠ rootId) : TakenOut id arena result := by
  have formed := droppedWellFormed dropped wellFormed leaves notRoot
  have outside (other : NodeId) (isLive : result.contains other = true) :
      ¬ (other = id ∨ other ∈ arena.walk id) := ((droppedLive dropped).mp isLive).2
  refine ⟨fun other => ?_, ?_, fun other isLive => droppedGet dropped (outside other isLive),
    fun other isLive => Option.ext fun parent => ?_,
    fun other isLive => droppedChildren dropped wellFormed leaves (outside other isLive), fun other missing => ?_⟩
  · rw [droppedLive dropped, not_or]
  · have root := outside rootId formed.rootLive
    refine formed.visitsWalk ?_
    have visits := droppedVisits dropped wellFormed leaves (wellFormed.walkVisits rootId)
    have lists : result.children rootId =
        (arena.children rootId).filter fun other => other ≠ id ∧ other ∉ arena.walk id := by
      rw [droppedChildren dropped wellFormed leaves root]
      refine List.filter_congr fun child listed => ?_
      simp [wellFormed.childInside listed, root]
    rw [lists]
    exact visits
  · rw [droppedParent dropped]
    simp [outside other isLive]
  · have gone : ¬ result.contains other = true := by simp [missing]
    refine ⟨?_, (formed.missing gone).1⟩
    rw [← Option.not_isSome_iff_eq_none]
    exact fun kept => gone (formed.listOwner other kept)

end Removed

theorem WellFormed.removeAccepted (wellFormed : arena.WellFormed) (isLive : arena.contains id = true)
    (notRoot : id ≠ rootId) :
    ∃ data result, arena.get? id = some data ∧ arena.remove id = (some data, result) ∧ result.WellFormed ∧
      TakenOut id arena result ∧ result.fresh = arena.fresh := by
  obtain ⟨old, leaves, -⟩ := wellFormed.parentLive id isLive notRoot
  obtain ⟨data, found⟩ := Option.isSome_iff_exists.mp isLive
  have dropped := wellFormed.subtreeDropped leaves none
  refine ⟨data, _, found, ?_, droppedWellFormed dropped wellFormed leaves notRoot,
    droppedTakenOut dropped wellFormed leaves notRoot, dropped.fresh.trans (arena.detachFresh id)⟩
  rw [wellFormed.removed leaves notRoot]
  exact congrArg (·, _) found

theorem removeRefused (refused : id = rootId ∨ arena.contains id = false) : arena.remove id = (none, arena) := by
  rw [remove, if_pos]
  rcases refused with root | missing
  · simp [root]
  · simp [missing]

theorem nodeRemovedExactly (arena : Arena) (wellFormed : arena.WellFormed) (id : NodeId) :
    (arena.contains id = true → id ≠ rootId →
      ∃ data result, arena.get? id = some data ∧ arena.remove id = (some data, result) ∧
        result.WellFormed ∧ TakenOut id arena result) ∧
    (id = rootId ∨ arena.contains id = false → arena.remove id = (none, arena)) := by
  refine ⟨fun isLive notRoot => ?_, removeRefused⟩
  obtain ⟨data, result, found, removed, formed, taken, -⟩ := wellFormed.removeAccepted isLive notRoot
  exact ⟨data, result, found, removed, formed, taken⟩

theorem nodeRemovedInner :
    nestedArena.walk rootId = [1, 2, 3, 4, 5, 6] ∧
      (∃ result, nestedArena.remove 2 = (some (.rule "b"), result) ∧ TakenOut 2 nestedArena result ∧
        result.walk rootId = [1, 4, 5, 6] ∧ result.children 1 = [4]) ∧
      nestedArena.remove rootId = (none, nestedArena) ∧ nestedArena.remove 7 = (none, nestedArena) := by
  obtain ⟨data, result, own, removed, -, taken⟩ :=
    (nodeRemovedExactly nestedArena nestedWellFormed 2).1 (by decide) (by decide)
  obtain rfl : NodeData.rule "b" = data := Option.some.inj own
  have walked := taken.walk
  have listed := taken.children 1 ((taken.live 1).mpr (by decide))
  exact ⟨by decide, ⟨result, removed, taken, walked.trans (by decide), listed.trans (by decide)⟩,
    (nodeRemovedExactly nestedArena nestedWellFormed rootId).2 (.inl rfl),
    (nodeRemovedExactly nestedArena nestedWellFormed 7).2 (.inr (by decide))⟩

end SheetLint.Arena
