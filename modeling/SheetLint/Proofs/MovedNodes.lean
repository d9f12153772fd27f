import SheetLint.Proofs.TakenOut

/-! Moving a node in front of another. The move takes the node out and puts it back with all that is below
it; what is asked of the sheet afterwards differs from the sheet before in the one or two child lists that
the node has left and entered. -/
namespace SheetLint

namespace Forest
variable {f tree : Forest Node} {ref other : NodeId}

theorem insertRootsOther (tree : Forest Node) (away : ref ∉ f.roots.map Node.id) :
    (insertBefore ref tree f).roots.map Node.id = f.roots.map Node.id := by
  induction f with
  | nil => rfl
  | cons node sub next _ ih =>
    simp only [roots, List.map_cons, List.mem_cons, not_or] at away ⊢
    rw [insertBefore, if_neg (Ne.symm away.1), roots, List.map_cons, ih away.2]

theorem insertRootsHere (tree : Forest Node) {front back : List NodeId}
    (split : f.roots.map Node.id = front ++ ref :: back) (first : ref ∉ front) :
    (insertBefore ref tree f).roots.map Node.id = front ++ (tree.roots.map Node.id ++ ref :: back) := by
  induction f generalizing front with
  | nil => simp [roots] at split
  | cons node sub next _ ih =>
    rw [roots, List.map_cons] at split
    cases front with
    | nil =>
      obtain ⟨same, rest⟩ := List.cons.inj split
      rw [insertBefore, if_pos same, rootsAppend, roots, List.map_append, List.map_cons, rest, same]
      rfl
    | cons top front =>
      obtain ⟨same, rest⟩ := List.cons.inj split
      have differs : node.id ≠ ref := fun here => first (by simp [← same, here])
      rw [insertBefore, if_neg differs, roots, List.map_cons, same,
        ih rest fun later => first (List.mem_cons_of_mem _ later)]
      rfl

theorem findInsertOld (once : f.ids.Nodup) (old : other ∉ tree.ids) :
    (insertBefore ref tree f).find? other =
      (f.find? other).map fun node => (node.1, insertBefore ref tree node.2) := by
  induction f with
  | nil => rfl
  | cons node sub next ihc ihn =>
    obtain ⟨topSub, topNext, subOnce, nextOnce, -⟩ := distinctCons once
    by_cases top : node.id = ref
    · -- nothing else is called `ref`, so nothing is inserted below any other node
      have kept : (f : Forest Node) → ref ∉ f.ids →
          (f.find? other).map (fun node => (node.1, insertBefore ref tree node.2)) = f.find? other := by
        intro f absent
        cases found : f.find? other with
        | none => rfl
        | some node =>
          obtain ⟨data, below⟩ := node
          rw [Option.map_some, insertAbsent fun inside => absent ((findBelow found).2 ref inside)]
      rw [insertBefore, if_pos top, findAppend, findNone old, Option.none_or, find?]
      split
      · rw [Option.map_some, insertAbsent (top ▸ topSub)]
      · rw [Option.map_or, kept sub (top ▸ topSub), kept next (top ▸ topNext)]
    · rw [insertBefore, if_neg top, find?, find?]
      split
      · rfl
      · rw [ihc subOnce, ihn nextOnce, Option.map_or]

theorem findInsertNew (once : f.ids.Nodup) (present : ref ∈ f.ids) (new : other ∉ f.ids) :
    (insertBefore ref tree f).find? other = tree.find? other := by
  induction f with
  | nil => cases present
  | cons node sub next ihc ihn =>
    obtain ⟨-, -, subOnce, nextOnce, apart⟩ := distinctCons once
    simp only [idsCons, List.mem_cons, List.mem_append, not_or] at present new
    obtain ⟨differs, newSub, newNext⟩ := new
    by_cases top : node.id = ref
    · have rest : (Forest.cons node sub next).find? other = none := findNone (by simp [differs, newSub, newNext])
      rw [insertBefore, if_pos top, findAppend, rest, Option.or_none]
    · rw [insertBefore, if_neg top, find?, if_neg (Ne.symm differs)]
      rcases present with same | inside | behind
      · exact absurd same.symm top
      · rw [insertAbsent (apart ref inside), findNone newNext, Option.or_none]
        exact ihc subOnce inside newSub
      · rw [insertAbsent fun both => apart ref both behind, findNone newSub, Option.none_or]
        exact ihn nextOnce behind newNext

end Forest

namespace Sheet
open Forest
variable {sheet : Sheet} {ref id : NodeId} {data : NodeData} {children : Forest Node}

/- What a sheet answers when `id` has gone from the children of `old` to those of `new`, in front of `ref`. -/
structure MovedBefore (ref id old new : NodeId) (sheet result : Sheet) : Prop where
  place : ∃ front back, (sheet.children new).filter (· ≠ id) = front ++ ref :: back ∧
    result.children new = front ++ id :: ref :: back
  left : old ≠ new → result.children old = (sheet.children old).filter (· ≠ id)
  lists : ∀ other, other ≠ old → other ≠ new → result.children other = sheet.children other
  data : ∀ other, result.get? other = sheet.get? other
  subtree : ∀ other, other = id ∨ other ∈ sheet.walk id → result.find? other = sheet.find? other

def moved (ref id : NodeId) (data : NodeData) (children : Forest Node) (sheet : Sheet) : Sheet :=
  { sheet with body := .insertBefore ref (.cons ⟨id, data⟩ children .nil) (sheet.body.erase id) }

theorem WellFormed.withoutViews (wellFormed : sheet.WellFormed) (below : id ≠ rootId)
    (found : sheet.find? id = some (data, children)) {other : NodeId}
    (kept : other ≠ id ∧ other ∉ sheet.walk id) :
    (sheet.without id).get? other = sheet.get? other ∧
      (sheet.without id).children other = (sheet.children other).filter (· ≠ id) := by
  have taken := wellFormed.takenOut below found
  by_cases left : (sheet.without id).contains other = true
  · exact ⟨taken.data other left, taken.children other left⟩
  · have missing : ¬ sheet.contains other = true := fun isLive => left ((taken.live other).mpr ⟨isLive, kept⟩)
    simp only [contains, Option.isSome_iff_ne_none, ne_eq, not_not] at left missing
    rw [(childrenMissing left).1, (childrenMissing missing).1, Sheet.get?, Sheet.get?, left, missing]
    exact ⟨rfl, rfl⟩

theorem WellFormed.movedOld (wellFormed : sheet.WellFormed) (found : sheet.find? id = some (data, children))
    {other : NodeId} (kept : other ≠ id ∧ other ∉ sheet.walk id) :
    (sheet.moved ref id data children).find? other =
      ((sheet.without id).find? other).map fun node =>
        (node.1, Forest.insertBefore ref (.cons ⟨id, data⟩ children .nil) node.2) := by
  rw [(childrenFound found).2] at kept
  by_cases root : other = rootId
  · subst root
    rfl
  · rw [findBody _ root, findBody _ root]
    exact findInsertOld (wellFormed.without id).once (by simpa using kept)

theorem WellFormed.movedChildren (wellFormed : sheet.WellFormed) (below : id ≠ rootId)
    (found : sheet.find? id = some (data, children)) {other : NodeId}
    (kept : other ≠ id ∧ other ∉ sheet.walk id) :
    (ref ∉ sheet.children other →
      (sheet.moved ref id data children).children other = (sheet.children other).filter (· ≠ id)) ∧
    ∀ front back, (sheet.children other).filter (· ≠ id) = front ++ ref :: back → ref ∉ front →
      (sheet.moved ref id data children).children other = front ++ id :: ref :: back := by
  have trees := (belowChanged _ rfl (@movedOld sheet ref _ _ _ wellFormed found _ kept)).2
  have list := (wellFormed.withoutViews below found kept).2
  rw [Sheet.children] at list
  constructor
  · intro away
    rw [Sheet.children, trees, insertRootsOther _ (by simp [list, away]), list]
  · intro front back split first
    rw [Sheet.children, trees, insertRootsHere _ (list.trans split) first]
    rfl

/- All of this is about a move that is accepted: `ref` is left when `id` has been taken out. -/
section Moved
variable (wellFormed : sheet.WellFormed) (below : id ≠ rootId) (found : sheet.find? id = some (data, children))
variable (left : ref ∈ (sheet.body.erase id).ids)
include wellFormed below found left

theorem WellFormed.movedWellFormed : (sheet.moved ref id data children).WellFormed := by
  rw [findBody sheet below] at found
  have ids := insertIds (wellFormed.without id).once left (.cons ⟨id, data⟩ children .nil)
  rw [idsCons, idsNil, List.append_nil] at ids
  have whole := ids.trans (eraseIds wellFormed.once found).symm
  exact wellFormed.rearranged (whole.nodup_iff.mpr wellFormed.once) fun other listed => whole.mem_iff.mp listed

theorem WellFormed.movedSubtree {other : NodeId} (inside : other = id ∨ other ∈ sheet.walk id) :
    (sheet.moved ref id data children).find? other = sheet.find? other := by
  rw [(childrenFound found).2] at inside
  rw [findBody sheet below] at found
  have gone : other ∉ (sheet.body.erase id).ids := by
    rw [eraseMem wellFormed.once found]
    exact fun listed => inside.elim listed.2.1 listed.2.2
  have listed : other ∈ sheet.body.ids := by
    rcases inside with same | deeper
    · subst same
      exact findIsSome.mp (Option.isSome_of_eq_some found)
    · exact (findBelow found).2 other deeper
  have root : other ≠ rootId := ne_of_mem_of_not_mem listed wellFormed.rootOutside
  have once : (sheet.body.erase id).ids.Nodup := (wellFormed.without id).once
  have entered : (sheet.moved ref id data children).body.find? other =
      Forest.find? other (.cons ⟨id, data⟩ children .nil) := findInsertNew once left gone
  rw [findBody _ root, findBody _ root, entered, Forest.find?]
  split
  · next same => rw [← same, found]
  · next differs =>
    rw [findInside wellFormed.once found (inside.resolve_left (Ne.symm differs)), Forest.find?,
      Option.or_none]

theorem WellFormed.movedData (other : NodeId) :
    (sheet.moved ref id data children).get? other = sheet.get? other := by
  by_cases inside : other = id ∨ other ∈ sheet.walk id
  · rw [Sheet.get?, Sheet.get?, wellFormed.movedSubtree below found left inside]
  · rw [not_or] at inside
    rw [(belowChanged (Forest.insertBefore ref _) rfl (wellFormed.movedOld found inside)).1]
    exact (wellFormed.withoutViews below found inside).1

theorem WellFormed.movedBefore {old new : NodeId} (leaves : sheet.parent? id = some old)
    (enters : sheet.parent? ref = some new) (differs : ref ≠ id) (away : ref ∉ sheet.walk id) :
    MovedBefore ref id old new sheet (sheet.moved ref id data children) := by
  have oldChild := (wellFormed.parentList id old).mp leaves
  have newChild := (wellFormed.parentList ref new).mp enters
  have oldOnly {other : NodeId} (listed : id ∈ sheet.children other) : other = old :=
    Option.some.inj (((wellFormed.parentList id other).mpr listed).symm.trans leaves)
  have newOnly {other : NodeId} (listed : ref ∈ sheet.children other) : other = new :=
    Option.some.inj (((wellFormed.parentList ref other).mpr listed).symm.trans enters)
  -- neither parent moves along with `id`
  have single : id ∉ sheet.walk id := fun inside => wellFormed.acyclic id (wellFormed.walkDescends.mp inside)
  have oldStays : old ≠ id ∧ old ∉ sheet.walk id :=
    not_or.mp fun inside => single (wellFormed.childWalked oldChild inside)
  have newStays : new ≠ id ∧ new ∉ sheet.walk id :=
    not_or.mp fun inside => away (wellFormed.childWalked newChild inside)
  constructor
  case place =>
    have listed : ref ∈ (sheet.children new).filter (· ≠ id) :=
      List.mem_filter.mpr ⟨newChild, by simpa using differs⟩
    obtain ⟨front, back, split, first⟩ := List.eq_append_cons_of_mem listed
    exact ⟨front, back, split, (wellFormed.movedChildren below found newStays).2 front back split first⟩
  case left =>
    intro apart
    exact (wellFormed.movedChildren below found oldStays).1 fun listed => apart (newOnly listed)
  case lists =>
    intro other notOld notNew
    by_cases inside : other = id ∨ other ∈ sheet.walk id
    · unfold Sheet.children Sheet.below
      rw [wellFormed.movedSubtree below found left inside]
    · have kept := (wellFormed.movedChildren below found (not_or.mp inside)).1 fun listed =>
        notNew (newOnly listed)
      have all : (sheet.children other).filter (· ≠ id) = sheet.children other :=
        List.filter_eq_self.mpr fun child listed => by
          have notId : child ≠ id := fun same => notOld (oldOnly (same ▸ listed))
          simpa using notId
      exact kept.trans all
  case data => exact wellFormed.movedData below found left
  case subtree => exact fun other inside => wellFormed.movedSubtree below found left inside

end Moved

theorem moveGuards {result : Sheet} (ok : sheet.moveBefore? ref id = some result) :
    sheet.contains ref = true ∧ sheet.contains id = true ∧ ref ≠ id ∧ ref ≠ rootId ∧ ref ∉ sheet.walk id := by
  unfold moveBefore? at ok
  split at ok
  · cases ok
  · next apart =>
    simp only [Bool.or_eq_true, decide_eq_true_eq, isBelow, List.contains_iff_mem, not_or] at apart
    split at ok
    · next data children parent found above =>
      unfold parent? at above
      split at above
      · cases above
      · next below =>
        have present : ref ∈ sheet.body.ids := parentIsSome.mp (Option.isSome_of_eq_some above)
        exact ⟨live.mpr (.inr present), Option.isSome_of_eq_some found, apart.1, below, apart.2⟩
    · cases ok

theorem WellFormed.moveAccepted (wellFormed : sheet.WellFormed) (refLive : sheet.contains ref = true)
    (idLive : sheet.contains id = true) (differs : ref ≠ id) (below : ref ≠ rootId) (away : ref ∉ sheet.walk id) :
    ∃ data children, id ≠ rootId ∧ sheet.find? id = some (data, children) ∧
      ref ∈ (sheet.body.erase id).ids ∧
      sheet.moveBefore? ref id = some (sheet.moved ref id data children) := by
  obtain ⟨⟨data, children⟩, found⟩ := Option.isSome_iff_exists.mp idLive
  obtain ⟨new, enters, -⟩ := wellFormed.parentLive ref refLive below
  have present := (live.mp refLive).resolve_left below
  -- everything is below the root
  have notRoot : id ≠ rootId := by
    intro same
    subst same
    exact away ((wellFormed.walkLive ref).mp refLive |>.resolve_left below)
  refine ⟨data, children, notRoot, found, ?_, ?_⟩
  · rw [(childrenFound found).2] at away
    rw [findBody sheet notRoot] at found
    exact (eraseMem wellFormed.once found).mpr ⟨present, differs, away⟩
  · have free : (decide (ref = id) || sheet.isBelow id ref) = false := by
      simpa [isBelow, differs] using away
    rw [moveBefore?, free, found, enters]
    rfl

theorem movedExactly (sheet : Sheet) (wellFormed : sheet.WellFormed) (ref id : NodeId) :
    ((sheet.moveBefore? ref id).isSome = true ↔
      sheet.contains ref = true ∧ sheet.contains id = true ∧ ref ≠ id ∧ ref ≠ rootId ∧
      ¬ Relation.TransGen (fun above below => sheet.parent? below = some above) id ref) ∧
    (sheet.moveBefore? ref id = none → sheet.apply (.moveBefore ref id) = sheet) ∧
    ∀ result, sheet.moveBefore? ref id = some result →
      sheet.apply (.moveBefore ref id) = result ∧ result.WellFormed ∧
      ∃ old new, sheet.parent? id = some old ∧ sheet.parent? ref = some new ∧
        MovedBefore ref id old new sheet result := by
  rw [← wellFormed.walkDescends]
  refine ⟨⟨fun accepted => ?_, fun guards => ?_⟩, fun refused => ?_, fun result ok => ?_⟩
  · obtain ⟨result, ok⟩ := Option.isSome_iff_exists.mp accepted
    exact moveGuards ok
  · obtain ⟨refLive, idLive, differs, below, away⟩ := guards
    obtain ⟨data, children, -, -, -, ok⟩ := wellFormed.moveAccepted refLive idLive differs below away
    exact Option.isSome_of_eq_some ok
  · rw [Sheet.apply, refused]
    rfl
  · obtain ⟨refLive, idLive, differs, below, away⟩ := moveGuards ok
    obtain ⟨data, children, notRoot, found, left, accepted⟩ :=
      wellFormed.moveAccepted refLive idLive differs below away
    obtain ⟨old, leaves, -⟩ := wellFormed.parentLive id idLive notRoot
    obtain ⟨new, enters, -⟩ := wellFormed.parentLive ref refLive below
    have same : sheet.moved ref id data children = result := Option.some.inj (accepted.symm.trans ok)
    subst same
    refine ⟨by rw [Sheet.apply, ok]; rfl, wellFormed.movedWellFormed notRoot found left, old, new, leaves, enters, ?_⟩
    exact wellFormed.movedBefore notRoot found left leaves enters differs away

end Sheet
end SheetLint
