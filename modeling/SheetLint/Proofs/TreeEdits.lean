import SheetLint.Proofs.Nesting

/-! Sheets under editing. `WellFormed` says, in terms of what a caller can ask a sheet for, that it is a
tree: parents and child lists agree, nothing is its own ancestor, and walking from the root meets every
node once. It follows from `Distinct`, on the identifiers alone, which every edit preserves. -/
namespace SheetLint.Sheet
open Forest

/-- The identifiers in use differ from each other and from the root's, and are not given out again. -/
structure Distinct (sheet : Sheet) : Prop where
  once : sheet.body.ids.Nodup
  given : ∀ id ∈ sheet.body.ids, rootId < id ∧ id < sheet.fresh
  free : rootId < sheet.fresh

structure WellFormed (sheet : Sheet) : Prop where
  rootLive : sheet.contains rootId = true
  rootTop : sheet.parent? rootId = none
  parentLive : ∀ id, sheet.contains id = true → id ≠ rootId →
    ∃ parent, sheet.parent? id = some parent ∧ sheet.contains parent = true
  parentList : ∀ id parent, sheet.parent? id = some parent ↔ id ∈ sheet.children parent
  onceInList : ∀ id parent, id ∈ sheet.children parent → (sheet.children parent).count id = 1
  listLive : ∀ id parent, id ∈ sheet.children parent →
    sheet.contains id = true ∧ sheet.contains parent = true
  acyclic : ∀ id, ¬ Relation.TransGen (fun above below => sheet.parent? below = some above) id id
  preorder : ∀ id, sheet.walk id = (sheet.children id).flatMap fun child => child :: sheet.walk child
  walkOnce : (sheet.walk rootId).Nodup
  walkLive : ∀ id, sheet.contains id = true ↔ id = rootId ∨ id ∈ sheet.walk rootId
  sizeWalk : sheet.size = 1 + (sheet.walk rootId).length

/-! ## Views of a sheet with distinct identifiers -/

theorem findRoot (sheet : Sheet) : sheet.find? rootId = some (sheet.root, sheet.body) := rfl

theorem findBody (sheet : Sheet) {id : NodeId} (below : id ≠ rootId) :
    sheet.find? id = sheet.body.find? id := if_neg below

theorem live {sheet : Sheet} {id : NodeId} :
    sheet.contains id = true ↔ id = rootId ∨ id ∈ sheet.body.ids := by
  by_cases root : id = rootId
  · simp [contains, root, findRoot]
  · rw [contains, findBody sheet root, findIsSome]
    simp [root]

variable {sheet : Sheet}

theorem Distinct.rootOutside (distinct : sheet.Distinct) : rootId ∉ sheet.body.ids := by
  intro present
  exact Nat.lt_irrefl _ (distinct.given rootId present).1

theorem Distinct.ne (distinct : sheet.Distinct) {id : NodeId} (present : id ∈ sheet.body.ids) :
    id ≠ rootId := fun same => distinct.rootOutside (same ▸ present)

theorem Distinct.below (distinct : sheet.Distinct) {id : NodeId} {data : NodeData}
    {children : Forest Node} (found : sheet.find? id = some (data, children)) :
    children.ids.Nodup ∧ ∀ inner ∈ children.ids,
      inner ∈ sheet.body.ids ∧ sheet.find? inner = children.find? inner := by
  by_cases root : id = rootId
  · subst root
    cases found
    exact ⟨distinct.once, fun inner mem => ⟨mem, findBody sheet (distinct.ne mem)⟩⟩
  · rw [findBody sheet root] at found
    have parts := eraseIds distinct.once found
    have once := (parts.nodup_iff.mp distinct.once)
    rw [List.cons_append, List.nodup_cons, List.nodup_append] at once
    refine ⟨once.2.1, fun inner mem => ?_⟩
    have present := (findBelow found).2 inner mem
    exact ⟨present, by rw [findBody sheet (distinct.ne present), findInside distinct.once found mem]⟩

theorem childrenFound {id : NodeId} {data : NodeData} {children : Forest Node}
    (found : sheet.find? id = some (data, children)) :
    sheet.children id = children.roots.map Node.id ∧ sheet.walk id = children.ids := by
  unfold Sheet.children walk Sheet.below
  rw [found]
  exact ⟨rfl, rfl⟩

theorem childrenMissing {id : NodeId} (missing : sheet.find? id = none) :
    sheet.children id = [] ∧ sheet.walk id = [] := by
  unfold Sheet.children walk Sheet.below
  rw [missing]
  exact ⟨rfl, rfl⟩

theorem childFound {id parent : NodeId} (child : id ∈ sheet.children parent) :
    ∃ data children, sheet.find? parent = some (data, children) ∧
      id ∈ children.roots.map Node.id := by
  cases found : sheet.find? parent with
  | none => rw [(childrenMissing found).1] at child; cases child
  | some node =>
    obtain ⟨data, children⟩ := node
    rw [(childrenFound found).1] at child
    exact ⟨data, children, rfl, child⟩

theorem Distinct.parentList (distinct : sheet.Distinct) {id parent : NodeId} :
    sheet.parent? id = some parent ↔ id ∈ sheet.children parent := by
  by_cases root : id = rootId
  · subst root
    constructor
    · intro above; cases above
    · intro child
      obtain ⟨data, children, found, top⟩ := childFound child
      exact absurd ((distinct.below found).2 _ (rootsIds top)).1 distinct.rootOutside
  · rw [parent?, if_neg root, parentExact distinct.once distinct.rootOutside]
    constructor
    · rintro (⟨rfl, top⟩ | ⟨data, children, found, top⟩)
      · rw [(childrenFound (findRoot sheet)).1]; exact top
      · have present := findIsSome.mp (by rw [found]; rfl : (sheet.body.find? parent).isSome = true)
        rw [← findBody sheet (distinct.ne present)] at found
        rw [(childrenFound found).1]; exact top
    · intro child
      obtain ⟨data, children, found, top⟩ := childFound child
      by_cases parentRoot : parent = rootId
      · subst parentRoot
        cases found
        exact .inl ⟨rfl, top⟩
      · rw [findBody sheet parentRoot] at found
        exact .inr ⟨data, children, found, top⟩

theorem Distinct.parentLarger (distinct : sheet.Distinct) {above below : NodeId}
    (parent : sheet.parent? below = some above) :
    (sheet.walk below).length < (sheet.walk above).length := by
  obtain ⟨data, children, found, top⟩ := childFound (distinct.parentList.mp parent)
  obtain ⟨data', inner, found'⟩ := findSome (rootsIds top)
  have same := ((distinct.below found).2 below (rootsIds top)).2.trans found'
  rw [(childrenFound found).2, (childrenFound same).2, idsLength, idsLength]
  exact (findBelow found').1

theorem Distinct.ancestorLarger (distinct : sheet.Distinct) {above below : NodeId}
    (chain : Relation.TransGen (fun above below => sheet.parent? below = some above) above below) :
    (sheet.walk below).length < (sheet.walk above).length := by
  induction chain with
  | single parent => exact distinct.parentLarger parent
  | tail _ parent ih => exact Nat.lt_trans (distinct.parentLarger parent) ih

theorem Distinct.preorder (distinct : sheet.Distinct) (id : NodeId) :
    sheet.walk id = (sheet.children id).flatMap fun child => child :: sheet.walk child := by
  cases found : sheet.find? id with
  | none => rw [(childrenMissing found).1, (childrenMissing found).2]; rfl
  | some node =>
    obtain ⟨data, children⟩ := node
    obtain ⟨once, inside⟩ := distinct.below found
    rw [(childrenFound found).1, (childrenFound found).2]
    apply idsFlat once
    intro child data' inner found'
    have present := findIsSome.mp (by rw [found']; rfl : (children.find? child).isSome = true)
    exact (childrenFound ((inside child present).2.trans found')).2

theorem Distinct.wellFormed (distinct : sheet.Distinct) : sheet.WellFormed where
  rootLive := rfl
  rootTop := rfl
  parentLive := by
    intro id isLive below
    have present := (live.mp isLive).resolve_left below
    obtain ⟨parent, found⟩ : ∃ parent, sheet.body.parentOf? id rootId = some parent :=
      Option.isSome_iff_exists.mp (parentIsSome.mpr present)
    have parent' : sheet.parent? id = some parent := by rw [parent?, if_neg below, found]
    obtain ⟨data, children, foundParent, _⟩ := childFound (distinct.parentList.mp parent')
    exact ⟨parent, parent', by rw [contains, foundParent]; rfl⟩
  parentList := fun _ _ => distinct.parentList
  onceInList := by
    intro id parent child
    obtain ⟨data, children, found, top⟩ := childFound child
    rw [(childrenFound found).1]
    rw [(rootsDistinct (distinct.below found).1).count, if_pos top]
  listLive := by
    intro id parent child
    obtain ⟨data, children, found, top⟩ := childFound child
    exact ⟨live.mpr (.inr ((distinct.below found).2 id (rootsIds top)).1), by rw [contains, found]; rfl⟩
  acyclic := fun _ cycle => Nat.lt_irrefl _ (distinct.ancestorLarger cycle)
  preorder := distinct.preorder
  walkOnce := distinct.once
  walkLive := fun _ => live
  sizeWalk := by rw [(childrenFound (findRoot sheet)).2, idsLength]; rfl

/-! ## Edits -/

inductive Change where
  | append (parent : NodeId) (data : NodeData)
  | insertBefore (ref : NodeId) (data : NodeData)
  | moveBefore (ref id : NodeId)
  | remove (id : NodeId)
  | update (id : NodeId) (edit : NodeData → NodeData)

def apply (sheet : Sheet) : Change → Sheet
  | .append parent data => ((sheet.append? parent data).map (·.2)).getD sheet
  | .insertBefore ref data => ((sheet.insertBefore? ref data).map (·.2)).getD sheet
  | .moveBefore ref id => (sheet.moveBefore? ref id).getD sheet
  | .remove id => ((sheet.remove? id).map (·.2)).getD sheet
  | .update id edit => sheet.modify id edit

theorem appendCases {parent id : NodeId} {data : NodeData} {result : Sheet}
    (ok : sheet.append? parent data = some (id, result)) :
    sheet.contains parent = true ∧ id = sheet.fresh ∧
      result = { sheet with
        body := if parent = rootId then sheet.body ++ .cons ⟨sheet.fresh, data⟩ .nil .nil
          else .appendTo parent (.cons ⟨sheet.fresh, data⟩ .nil .nil) sheet.body
        fresh := sheet.fresh + 1 } := by
  unfold append? at ok
  split at ok
  · cases ok
  · next above found =>
    split at ok
    · cases ok
      refine ⟨?_, rfl, rfl⟩
      rw [get?, Option.map_eq_some_iff] at found
      obtain ⟨node, found, -⟩ := found
      rw [contains, found]
      rfl
    · cases ok

theorem insertCases {ref id : NodeId} {data : NodeData} {result : Sheet}
    (ok : sheet.insertBefore? ref data = some (id, result)) :
    ref ∈ sheet.body.ids ∧ id = sheet.fresh ∧
      result = { sheet with
        body := .insertBefore ref (.cons ⟨sheet.fresh, data⟩ .nil .nil) sheet.body
        fresh := sheet.fresh + 1 } := by
  unfold insertBefore? at ok
  split at ok
  · cases ok
  · next parent found =>
    cases ok
    refine ⟨?_, rfl, rfl⟩
    unfold parent? at found
    split at found
    · cases found
    · exact parentIsSome.mp (by rw [found]; rfl)

theorem moveCases (distinct : sheet.Distinct) {ref id : NodeId} {result : Sheet}
    (ok : sheet.moveBefore? ref id = some result) :
    ∃ data children, sheet.body.find? id = some (data, children) ∧ ref ∈ (sheet.body.erase id).ids ∧
      result = { sheet with
        body := .insertBefore ref (.cons ⟨id, data⟩ children .nil) (sheet.body.erase id) } := by
  unfold moveBefore? at ok
  split at ok
  · cases ok
  next apart =>
  split at ok
  · next data children parent found above =>
    cases ok
    rw [Bool.or_eq_true, not_or, decide_eq_true_eq, isBelow, (childrenFound found).2,
      List.contains_iff_mem] at apart
    unfold parent? at above
    split at above
    · cases above
    have present : ref ∈ sheet.body.ids := parentIsSome.mp (by rw [above]; rfl)
    -- the root has every other node below it
    have below : id ≠ rootId := by
      rintro rfl
      cases found
      exact apart.2 present
    rw [findBody sheet below] at found
    refine ⟨data, children, found, ?_, rfl⟩
    have split := (eraseIds distinct.once found).mem_iff.mp present
    rw [List.mem_append, List.mem_cons] at split
    exact split.resolve_left fun inside => inside.elim apart.1 apart.2
  · cases ok

theorem removeCases {id : NodeId} {data : NodeData} {result : Sheet}
    (ok : sheet.remove? id = some (data, result)) :
    result = { sheet with body := sheet.body.erase id } := by
  unfold remove? at ok
  split at ok
  · cases ok
  · split at ok <;> cases ok
    rfl

theorem Distinct.grown (distinct : sheet.Distinct) {body : Forest Node}
    (ids : body.ids.Perm (sheet.fresh :: sheet.body.ids)) :
    Distinct { sheet with body, fresh := sheet.fresh + 1 } where
  once := by
    rw [ids.nodup_iff, List.nodup_cons]
    exact ⟨fun old => Nat.lt_irrefl _ (distinct.given _ old).2, distinct.once⟩
  given := by
    intro id mem
    rcases List.mem_cons.mp (ids.mem_iff.mp mem) with rfl | old
    · exact ⟨distinct.free, Nat.lt_succ_self _⟩
    · exact ⟨(distinct.given id old).1, Nat.lt_succ_of_lt (distinct.given id old).2⟩
  free := Nat.lt_succ_of_lt distinct.free

theorem Distinct.kept (distinct : sheet.Distinct) {root : NodeData} {body : Forest Node}
    (once : body.ids.Nodup) (old : ∀ id ∈ body.ids, id ∈ sheet.body.ids) :
    Distinct { sheet with root, body } where
  once := once
  given := fun id mem => distinct.given id (old id mem)
  free := distinct.free

theorem Distinct.append (distinct : sheet.Distinct) {parent id : NodeId} {data : NodeData}
    {result : Sheet} (ok : sheet.append? parent data = some (id, result)) : result.Distinct := by
  obtain ⟨isLive, -, rfl⟩ := appendCases ok
  apply distinct.grown
  split
  · rw [idsAppend]
    exact List.perm_append_comm
  · next below =>
    have present := (live.mp isLive).resolve_left below
    have ids := appendIds distinct.once present (.cons ⟨sheet.fresh, data⟩ .nil .nil)
    exact ids.trans List.perm_append_comm

theorem Distinct.insertBefore (distinct : sheet.Distinct) {ref id : NodeId} {data : NodeData}
    {result : Sheet} (ok : sheet.insertBefore? ref data = some (id, result)) : result.Distinct := by
  obtain ⟨present, -, rfl⟩ := insertCases ok
  apply distinct.grown
  simpa using insertIds distinct.once present (.cons ⟨sheet.fresh, data⟩ .nil .nil)

theorem Distinct.moveBefore (distinct : sheet.Distinct) {ref id : NodeId} {result : Sheet}
    (ok : sheet.moveBefore? ref id = some result) : result.Distinct := by
  obtain ⟨data, children, found, present, rfl⟩ := moveCases distinct ok
  have erased := eraseIds distinct.once found
  have once := (eraseSublist sheet.body id).nodup distinct.once
  have ids := insertIds once present (.cons ⟨id, data⟩ children .nil)
  rw [idsCons, idsNil, List.append_nil] at ids
  have whole := ids.trans erased.symm
  exact distinct.kept (whole.nodup_iff.mpr distinct.once) fun other mem => whole.mem_iff.mp mem

theorem Distinct.remove (distinct : sheet.Distinct) {id : NodeId} {data : NodeData} {result : Sheet}
    (ok : sheet.remove? id = some (data, result)) : result.Distinct := by
  rw [removeCases ok]
  have fewer := eraseSublist sheet.body id
  exact distinct.kept (fewer.nodup distinct.once) fun other mem => fewer.subset mem

theorem Distinct.modify (distinct : sheet.Distinct) (id : NodeId) (edit : NodeData → NodeData) :
    (sheet.modify id edit).Distinct := by
  unfold Sheet.modify
  split
  · exact distinct.kept distinct.once fun other mem => mem
  · apply distinct.kept
    · rw [modifyIds]; exact distinct.once
    · intro other mem; rwa [modifyIds] at mem

theorem Distinct.apply (distinct : sheet.Distinct) (change : Change) :
    (sheet.apply change).Distinct := by
  cases change with
  | append parent data =>
    rw [Sheet.apply]
    cases ok : sheet.append? parent data with
    | none => exact distinct
    | some result => exact distinct.append ok
  | insertBefore ref data =>
    rw [Sheet.apply]
    cases ok : sheet.insertBefore? ref data with
    | none => exact distinct
    | some result => exact distinct.insertBefore ok
  | moveBefore ref id =>
    rw [Sheet.apply]
    cases ok : sheet.moveBefore? ref id with
    | none => exact distinct
    | some result => exact distinct.moveBefore ok
  | remove id =>
    rw [Sheet.apply]
    cases ok : sheet.remove? id with
    | none => exact distinct
    | some result => exact distinct.remove ok
  | update id edit => exact distinct.modify id edit

theorem Distinct.changes (distinct : sheet.Distinct) (changes : List Change) :
    (changes.foldl Sheet.apply sheet).Distinct := by
  induction changes generalizing sheet with
  | nil => exact distinct
  | cons change rest ih => exact ih (distinct.apply change)

/-! ## Where editing begins -/

theorem emptyDistinct : empty.Distinct where
  once := List.nodup_nil
  given := fun _ mem => by cases mem
  free := Nat.zero_lt_one

theorem parseDistinct {source : String} (ok : parse source = .ok sheet) : sheet.Distinct := by
  obtain ⟨ps, after, -, nested, -⟩ := parseExact.mp ok
  obtain ⟨ids, fresh⟩ := nestedIds nested
  constructor
  · rw [ids]; exact List.nodup_range'
  · intro id mem
    rw [ids, List.mem_range'_1] at mem
    rw [fresh]
    exact ⟨mem.1, mem.2⟩
  · rw [fresh]
    exact Nat.lt_of_lt_of_le Nat.zero_lt_one (Nat.le_add_right _ _)

end SheetLint.Sheet
