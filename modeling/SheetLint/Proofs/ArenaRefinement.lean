import SheetLint.Proofs.ArenaEdits
import SheetLint.Proofs.MovedNodes

/-! Arenas and forests. An arena represents a sheet when both give every node the same payload and the same
children. Each edit of the one is the edit of the other, with the same answer, so that what is proved about
sheets as forests holds of the maps that they are kept in. -/
namespace SheetLint

namespace Forest
variable {f tree : Forest Node} {parent other : NodeId}

theorem appendRoots (f : Forest Node) (parent : NodeId) (tree : Forest Node) :
    (appendTo parent tree f).roots.map Node.id = f.roots.map Node.id := by
  induction f with
  | nil => rfl
  | cons node sub next _ ih =>
    rw [appendTo]
    split
    · rfl
    · rw [roots, roots, List.map_cons, List.map_cons, ih]

theorem findEither {sub next : Forest Node} (apart : ∀ id ∈ sub.ids, id ∉ next.ids) {α : Type}
    {view : NodeData × Forest Node → α} :
    ((next.find? other).map view).or ((sub.find? other).map view) =
      ((sub.find? other).or (next.find? other)).map view := by
  by_cases inside : other ∈ sub.ids
  · rw [findNone (apart other inside), Option.or_none]
    rfl
  · rw [findNone inside, Option.none_or, Option.map_none, Option.or_none]

theorem findAppendOld (once : f.ids.Nodup) (old : other ∉ tree.ids) :
    (appendTo parent tree f).find? other = (f.find? other).map fun node =>
      (node.1, if other = parent then node.2 ++ tree else appendTo parent tree node.2) := by
  induction f with
  | nil => rfl
  | cons node sub next ihc ihn =>
    obtain ⟨topSub, topNext, subOnce, nextOnce, -⟩ := distinctCons once
    by_cases top : node.id = parent
    · -- the parent is nowhere else, so nothing is appended below any other node
      have kept (g : Forest Node) (absent : parent ∉ g.ids) :
          (g.find? other).map (fun node =>
            (node.1, if other = parent then node.2 ++ tree else appendTo parent tree node.2)) = g.find? other := by
        cases found : g.find? other with
        | none => rfl
        | some inner =>
          have present := findIsSome.mp (Option.isSome_of_eq_some found)
          have differs : other ≠ parent := fun same => absent (same ▸ present)
          rw [Option.map_some, if_neg differs, appendAbsent fun inside => absent ((findBelow found).2 parent inside)]
      rw [appendTo, if_pos top, find?, find?]
      split
      · next same => rw [Option.map_some, if_pos (same ▸ top)]
      · next differs =>
        rw [Option.map_or, kept sub (top ▸ topSub), kept next (top ▸ topNext), findAppend, findNone old, Option.or_none]
    · rw [appendTo, if_neg top, find?, find?]
      split
      · next same => rw [Option.map_some, if_neg (same ▸ top)]
      · rw [ihc subOnce, ihn nextOnce, Option.map_or]

theorem findAppendNew (once : f.ids.Nodup) (present : parent ∈ f.ids) (new : other ∉ f.ids) :
    (appendTo parent tree f).find? other = tree.find? other := by
  induction f with
  | nil => cases present
  | cons node sub next ihc ihn =>
    obtain ⟨-, -, subOnce, nextOnce, apart⟩ := distinctCons once
    simp only [idsCons, List.mem_cons, List.mem_append, not_or] at present new
    obtain ⟨differs, newSub, newNext⟩ := new
    by_cases top : node.id = parent
    · rw [appendTo, if_pos top, find?, if_neg (Ne.symm differs), findAppend, findNone newSub, Option.none_or,
        findNone newNext, Option.or_none]
    · rw [appendTo, if_neg top, find?, if_neg (Ne.symm differs)]
      rcases present with same | inside | behind
      · exact absurd same.symm top
      · rw [appendAbsent (apart parent inside), findNone newNext, Option.or_none]
        exact ihc subOnce inside newSub
      · rw [appendAbsent fun both => apart parent both behind, findNone newSub, Option.none_or]
        exact ihn nextOnce behind newNext

theorem findModify (f : Forest Node) (id : NodeId) (edit : NodeData → NodeData) (other : NodeId) :
    (f.modify id edit).find? other =
      (f.find? other).map fun node => (if other = id then edit node.1 else node.1, node.2.modify id edit) := by
  induction f with
  | nil => rfl
  | cons node sub next ihc ihn =>
    unfold modify at ihc ihn ⊢
    rw [map, find?, find?, ihc, ihn]
    by_cases changed : node.id = id
    · rw [if_pos changed]
      by_cases here : node.id = other
      · rw [if_pos here, if_pos here, Option.map_some, if_pos (here ▸ changed)]
      · rw [if_neg here, if_neg here, Option.map_or]
    · rw [if_neg changed]
      by_cases here : node.id = other
      · rw [if_pos here, if_pos here, Option.map_some, if_neg (here ▸ changed)]
      · rw [if_neg here, if_neg here, Option.map_or]

theorem modifyRoots (f : Forest Node) (id : NodeId) (edit : NodeData → NodeData) :
    (f.modify id edit).roots.map Node.id = f.roots.map Node.id := by
  induction f with
  | nil => rfl
  | cons node sub next _ ih =>
    unfold modify at ih ⊢
    rw [map, roots, roots, List.map_cons, List.map_cons, ih]
    split <;> rfl

end Forest

namespace Sheet
open Forest
variable {sheet result : Sheet} {parent ref id : NodeId} {data : NodeData}

structure Grown (parent : NodeId) (data : NodeData) (siblings : List NodeId) (sheet result : Sheet) : Prop where
  get : ∀ other, result.get? other = if other = sheet.fresh then some data else sheet.get? other
  lists : ∀ other, result.children other = if other = parent then siblings else sheet.children other
  fresh : result.fresh = sheet.fresh + 1

theorem Distinct.freshGone (distinct : sheet.Distinct) : sheet.find? sheet.fresh = none := by
  rw [findBody sheet (Nat.ne_of_gt distinct.free)]
  exact findNone fun old => Nat.lt_irrefl _ (distinct.given _ old).2

theorem Distinct.grownBy (distinct : sheet.Distinct) {body : Forest Node} {siblings : List NodeId}
    (change : NodeId → Forest Node → Forest Node) (parentLive : sheet.contains parent = true)
    (new : body.find? sheet.fresh = some (data, .nil))
    (old : ∀ other, other ≠ sheet.fresh → Sheet.find? { sheet with body, fresh := sheet.fresh + 1 } other =
      (sheet.find? other).map fun node => (node.1, change other node.2))
    (lists : ∀ other node, sheet.find? other = some node → (change other node.2).roots.map Node.id =
      if other = parent then siblings else node.2.roots.map Node.id) :
    Grown parent data siblings sheet { sheet with body, fresh := sheet.fresh + 1 } := by
  have gone := distinct.freshGone
  have there : Sheet.find? { sheet with body, fresh := sheet.fresh + 1 } sheet.fresh = some (data, .nil) :=
    (findBody _ (Nat.ne_of_gt distinct.free)).trans new
  have away (other : NodeId) (missing : sheet.find? other = none) : other ≠ parent := by
    rintro rfl
    rw [contains, missing] at parentLive
    cases parentLive
  refine ⟨fun other => ?_, fun other => ?_, rfl⟩
  · split
    · next same => rw [same, Sheet.get?, there]; rfl
    · next differs =>
      rw [Sheet.get?, Sheet.get?, old other differs, Option.map_map]
      rfl
  · by_cases same : other = sheet.fresh
    · subst same
      rw [if_neg (away _ gone), (childrenFound there).1, (childrenMissing gone).1]
      rfl
    · have moved := old other same
      cases found : sheet.find? other with
      | none =>
        rw [found] at moved
        rw [if_neg (away other found), (childrenMissing moved).1, (childrenMissing found).1]
      | some node =>
        rw [found] at moved
        rw [(childrenFound moved).1, (childrenFound found).1]
        exact lists other node found

theorem Distinct.appendGrown (distinct : sheet.Distinct)
    (ok : sheet.append? parent data = some (id, result)) :
    Grown parent data (sheet.children parent ++ [sheet.fresh]) sheet result := by
  obtain ⟨parentLive, -, rfl⟩ := appendCases ok
  have absent : sheet.fresh ∉ sheet.body.ids := fun old => Nat.lt_irrefl _ (distinct.given _ old).2
  have leaf : (Forest.cons (⟨sheet.fresh, data⟩ : Node) .nil .nil).find? sheet.fresh = some (data, .nil) := if_pos rfl
  have apart (other : NodeId) (differs : other ≠ sheet.fresh) :
      other ∉ (Forest.cons (⟨sheet.fresh, data⟩ : Node) .nil .nil).ids := by simp [differs]
  by_cases top : parent = rootId
  · subst top
    rw [if_pos rfl]
    refine distinct.grownBy
      (fun other below => if other = rootId then below ++ Forest.cons ⟨sheet.fresh, data⟩ .nil .nil else below)
      parentLive ?_ ?_ ?_
    · rw [findAppend, findNone absent, Option.none_or, leaf]
    · intro other differs
      by_cases root : other = rootId
      · subst root
        rfl
      · rw [findBody _ root, findBody _ root, findAppend, findNone (apart other differs), Option.or_none]
        simp [root]
    · intro other node found
      split
      · next root =>
        subst root
        rw [rootsAppend, List.map_append, (childrenFound found).1]
        rfl
      · rfl
  · rw [if_neg top]
    have present := (live.mp parentLive).resolve_left top
    refine distinct.grownBy (fun other below =>
        if other = parent then below ++ Forest.cons ⟨sheet.fresh, data⟩ .nil .nil
        else .appendTo parent (.cons ⟨sheet.fresh, data⟩ .nil .nil) below) parentLive ?_ ?_ ?_
    · rw [findAppendNew distinct.once present absent, leaf]
    · intro other differs
      by_cases root : other = rootId
      · subst root
        rw [findRoot, findRoot, Option.map_some, if_neg (Ne.symm top)]
      · rw [findBody _ root, findBody _ root]
        exact findAppendOld distinct.once (apart other differs)
    · intro other node found
      split
      · next same =>
        subst same
        rw [rootsAppend, List.map_append, (childrenFound found).1]
        rfl
      · exact appendRoots ..

theorem Distinct.insertGrown (distinct : sheet.Distinct) {front back : List NodeId}
    (up : sheet.parent? ref = some parent) (parted : sheet.children parent = front ++ ref :: back)
    (first : ref ∉ front) (ok : sheet.insertBefore? ref data = some (id, result)) :
    Grown parent data (front ++ sheet.fresh :: ref :: back) sheet result := by
  obtain ⟨present, -, rfl⟩ := insertCases ok
  have absent : sheet.fresh ∉ sheet.body.ids := fun old => Nat.lt_irrefl _ (distinct.given _ old).2
  have parentLive := (distinct.wellFormed.listLive ref parent (distinct.parentList.mp up)).2
  refine distinct.grownBy (fun _ below => .insertBefore ref (.cons ⟨sheet.fresh, data⟩ .nil .nil) below)
    parentLive ?_ ?_ ?_
  · rw [findInsertNew distinct.once present absent]
    exact if_pos rfl
  · intro other differs
    by_cases root : other = rootId
    · subst root
      rfl
    · rw [findBody _ root, findBody _ root]
      exact findInsertOld distinct.once (by simp [differs])
  · intro other node found
    have own := (childrenFound found).1
    split
    · next same =>
      subst same
      rw [insertRootsHere _ (own.symm.trans parted) first]
      rfl
    · next differs =>
      refine insertRootsOther _ fun inside => differs ?_
      rw [← own, ← distinct.parentList] at inside
      exact Option.some.inj (inside.symm.trans up)

theorem Distinct.walkMatching (distinct : sheet.Distinct) (wanted : NodeData → Bool) :
    (sheet.walk rootId).filter (fun id => (sheet.get? id).any wanted) =
      (sheet.body.labels.filter fun node => wanted node.data).map Node.id := by
  rw [(childrenFound (findRoot sheet)).2, ids, List.filter_map]
  congr 1
  refine List.filter_congr fun node listed => ?_
  have found := labelFound distinct.once listed
  rw [← findBody sheet (distinct.ne (labelsIds listed))] at found
  rw [Function.comp, Sheet.get?, found, Option.any_some]

theorem modifyViews (sheet : Sheet) (id : NodeId) (edit : NodeData → NodeData) (other : NodeId) :
    (sheet.modify id edit).get? other =
        (if other = id then (sheet.get? id).map edit else sheet.get? other) ∧
      (sheet.modify id edit).children other = sheet.children other := by
  by_cases root : id = rootId
  · rw [Sheet.modify, if_pos root, root]
    by_cases top : other = rootId
    · subst top
      exact ⟨rfl, rfl⟩
    · have same : Sheet.find? { sheet with root := edit sheet.root } other = sheet.find? other := by
        rw [findBody _ top, findBody _ top]
      rw [if_neg top, Sheet.get?, Sheet.children, Sheet.below, same]
      exact ⟨rfl, rfl⟩
  · rw [Sheet.modify, if_neg root]
    by_cases top : other = rootId
    · subst top
      rw [if_neg (Ne.symm root)]
      exact ⟨rfl, modifyRoots ..⟩
    · have moved : Sheet.find? { sheet with body := sheet.body.modify id edit } other =
          (sheet.find? other).map fun node => (if other = id then edit node.1 else node.1, node.2.modify id edit) := by
        rw [findBody _ top, findBody _ top, findModify]
      cases found : sheet.find? other with
      | none =>
        rw [found] at moved
        rw [(childrenMissing moved).1, (childrenMissing found).1, Sheet.get?, moved]
        by_cases same : other = id
        · rw [if_pos same, ← same, Sheet.get?, found]
          exact ⟨rfl, rfl⟩
        · rw [if_neg same, Sheet.get?, found]
          exact ⟨rfl, rfl⟩
      | some node =>
        rw [found] at moved
        rw [(childrenFound moved).1, (childrenFound found).1, Sheet.get?, moved]
        refine ⟨?_, modifyRoots ..⟩
        by_cases same : other = id
        · rw [if_pos same, ← same, Sheet.get?, found]
          simp
        · rw [if_neg same, Sheet.get?, found]
          simp [same]

end Sheet

namespace Arena
open Sheet (rootId Change)
variable {arena : Arena} {sheet : Sheet}

structure Represents (arena : Arena) (sheet : Sheet) : Prop where
  data : ∀ id, arena.get? id = sheet.get? id
  lists : ∀ id, arena.children id = sheet.children id
  fresh : arena.fresh = sheet.fresh

/-! ## Questions -/

namespace Represents
variable (represents : arena.Represents sheet)
include represents

theorem live (id : NodeId) : arena.contains id = sheet.contains id := by
  have same := congrArg Option.isSome (represents.data id)
  rw [Sheet.get?, Option.isSome_map] at same
  exact same

variable (wellFormed : arena.WellFormed) (formed : sheet.WellFormed)
include wellFormed formed

theorem parent (id : NodeId) : arena.parent? id = sheet.parent? id :=
  Option.ext fun parent => by rw [wellFormed.parentList, formed.parentList, represents.lists]

theorem below (low high : NodeId) : arena.Below low high ↔
    Relation.TransGen (fun above below => sheet.parent? below = some above) high low := by
  rw [Below, Relation.transGen_swap]
  simp only [represents.parent wellFormed formed]

theorem walk (id : NodeId) : arena.walk id = sheet.walk id := by
  have flat {ids order : List NodeId} (visits : arena.Visits ids order) :
      order = ids.flatMap fun child => child :: sheet.walk child := by
    induction visits with
    | nil => rfl
    | @cons id stack below after inner rest ihInner ihRest =>
      rw [List.flatMap_cons, ← ihRest, formed.preorder id, ← represents.lists, ← ihInner, List.cons_append]
  rw [flat (wellFormed.walkVisits id), represents.lists, ← formed.preorder]

end Represents

structure Agrees (arena : Arena) (sheet : Sheet) : Prop where
  get : ∀ id, arena.get? id = sheet.get? id
  contains : ∀ id, arena.contains id = sheet.contains id
  parent : ∀ id, arena.parent? id = sheet.parent? id
  children : ∀ id, arena.children id = sheet.children id
  index : ∀ id, arena.index? id = sheet.index? id
  walk : ∀ id, arena.walk id = sheet.walk id
  rules : arena.rules = sheet.rules
  declarations : arena.declarations = sheet.declarations
  size : arena.size = sheet.size
  isEmpty : arena.isEmpty = sheet.isEmpty

theorem Represents.agrees (represents : arena.Represents sheet) (wellFormed : arena.WellFormed)
    (distinct : sheet.Distinct) : arena.Agrees sheet := by
  have formed := distinct.wellFormed
  have up := represents.parent wellFormed formed
  have walk := represents.walk wellFormed formed
  have matching (wanted : NodeData → Bool) : arena.walkMatching wanted =
      (sheet.body.labels.filter fun node => wanted node.data).map Node.id := by
    rw [walkMatching, walk, ← distinct.walkMatching]
    simp only [represents.data]
  refine ⟨represents.data, represents.live, up, represents.lists, fun id => ?_, walk, matching _, matching _, ?_, ?_⟩
  · simp only [index?, Sheet.index?, up, represents.lists]
  · rw [wellFormed.walked.sizeWalk, formed.sizeWalk, walk]
  · rw [isEmpty, represents.lists, Sheet.isEmpty, (Sheet.childrenFound (Sheet.findRoot sheet)).1]
    cases sheet.body <;> rfl

/-! ## Edits -/

theorem representsGrown (represents : arena.Represents sheet) (wellFormed : arena.WellFormed) {parent : NodeId}
    {index : Option Nat} {data : NodeData} {result : Sheet}
    (grown : Sheet.Grown parent data (placed sheet.fresh (sheet.children parent) index) sheet result) :
    (arena.grown parent index data).Represents result where
  data := fun other => by rw [grownGet, grown.get, represents.data, represents.fresh]
  lists := fun other => by
    rw [wellFormed.grownChildren, grown.lists, represents.lists, represents.lists, represents.fresh]
  fresh := by
    rw [grown.fresh, ← represents.fresh]
    rfl

section Edits
variable (represents : arena.Represents sheet) (wellFormed : arena.WellFormed) (distinct : sheet.Distinct)
include represents wellFormed distinct

theorem appendRefines (parent : NodeId) (data : NodeData) :
    (arena.append parent data).1 = (sheet.append? parent data).map (·.1) ∧
      (arena.append parent data).2.Represents (sheet.apply (.append parent data)) := by
  rcases appendCases arena parent data with ⟨above, found, container, done⟩ | ⟨refused, done⟩
  · rw [represents.data] at found
    obtain ⟨result, ok⟩ : ∃ result, sheet.append? parent data = some (sheet.fresh, result) := by
      rw [Sheet.append?, found]
      exact ⟨_, if_pos container⟩
    rw [done, Sheet.apply, ok, represents.fresh]
    exact ⟨rfl, representsGrown represents wellFormed (distinct.appendGrown ok)⟩
  · have none : sheet.append? parent data = none := by
      rw [Sheet.append?]
      cases found : sheet.get? parent with
      | none => rfl
      | some above =>
        have leaf := refused above ((represents.data parent).trans found)
        simp [leaf]
    rw [done, Sheet.apply, none]
    exact ⟨rfl, represents⟩

theorem insertRefines (ref : NodeId) (data : NodeData) :
    (arena.insertBefore ref data).1 = (sheet.insertBefore? ref data).map (·.1) ∧
      (arena.insertBefore ref data).2.Represents (sheet.apply (.insertBefore ref data)) := by
  have same := represents.parent wellFormed distinct.wellFormed ref
  rcases wellFormed.insertCases ref data with ⟨parent, front, back, up, parted, first, done⟩ | ⟨top, done⟩
  · rw [same] at up
    rw [represents.lists] at parted
    obtain ⟨result, ok⟩ : ∃ result, sheet.insertBefore? ref data = some (sheet.fresh, result) := by
      rw [Sheet.insertBefore?, up]
      exact ⟨_, rfl⟩
    have grown := distinct.insertGrown up parted first ok
    rw [← placedBetween, ← parted] at grown
    rw [done, Sheet.apply, ok, represents.fresh]
    exact ⟨rfl, representsGrown represents wellFormed grown⟩
  · have none : sheet.insertBefore? ref data = none := by
      rw [Sheet.insertBefore?, ← same, top]
    rw [done, Sheet.apply, none]
    exact ⟨rfl, represents⟩

theorem moveRefines (ref id : NodeId) :
    (arena.moveBefore ref id).1 = (sheet.moveBefore? ref id).isSome ∧
      (arena.moveBefore ref id).2.Represents (sheet.apply (.moveBefore ref id)) := by
  have formed := distinct.wellFormed
  obtain ⟨guards, kept, moves⟩ := Sheet.movedExactly sheet formed ref id
  rw [← represents.live, ← represents.live, ← represents.below wellFormed formed] at guards
  by_cases allowed : arena.contains ref = true ∧ arena.contains id = true ∧ ref ≠ id ∧ ref ≠ rootId ∧
      ¬ arena.Below ref id
  · obtain ⟨after, ok⟩ := Option.isSome_iff_exists.mp (guards.mpr allowed)
    obtain ⟨applied, -, old', new', leaves', enters', there⟩ := moves after ok
    obtain ⟨refLive, idLive, differs, below, away⟩ := allowed
    obtain ⟨old, new, result, leaves, enters, accepted, -, here, fresh⟩ :=
      wellFormed.moveAccepted refLive idLive differs below away
    rw [← represents.parent wellFormed formed] at leaves' enters'
    obtain rfl : old = old' := Option.some.inj (leaves.symm.trans leaves')
    obtain rfl : new = new' := Option.some.inj (enters.symm.trans enters')
    rw [accepted, ok, applied]
    refine ⟨rfl, fun other => ?_, fun other => ?_, ?_⟩
    · rw [here.data, there.data, represents.data]
    · by_cases entered : other = new
      · -- the reference stands once in the list, so both have split it in the same place
        subst entered
        obtain ⟨front, back, parted, placed⟩ := here.place
        obtain ⟨front', back', parted', placed'⟩ := there.place
        have once := (wellFormed.onceInList other).filter (· ≠ id)
        rw [parted, List.nodup_append, List.nodup_cons] at once
        have same := parted.symm.trans ((congrArg _ (represents.lists other)).trans parted')
        have notFront : ref ∉ front := fun inside => once.2.2 ref inside ref List.mem_cons_self rfl
        obtain ⟨rfl, -, rfl⟩ := (List.append_cons_inj_of_notMem notFront once.2.1.1).mp same
        rw [placed, placed']
      · by_cases left : other = old
        · subst left
          rw [here.left entered, there.left entered, represents.lists]
        · rw [here.lists other left entered, there.lists other left entered, represents.lists]
    · obtain ⟨data, children, -, -, rfl⟩ := Sheet.moveCases distinct ok
      exact fresh.trans represents.fresh
  · have none : sheet.moveBefore? ref id = none := by
      rw [← Option.not_isSome_iff_eq_none, guards]
      exact allowed
    rw [wellFormed.moveRefused allowed, kept none, none]
    exact ⟨rfl, represents⟩

theorem removeRefines (id : NodeId) :
    (arena.remove id).1 = (sheet.remove? id).map (·.1) ∧
      (arena.remove id).2.Represents (sheet.apply (.remove id)) := by
  have formed := distinct.wellFormed
  obtain ⟨removes, kept⟩ := Sheet.removedExactly sheet formed id
  by_cases accepted : arena.contains id = true ∧ id ≠ rootId
  · obtain ⟨isLive, notRoot⟩ := accepted
    obtain ⟨data, result, found, removed, resultFormed, here, fresh⟩ := wellFormed.removeAccepted isLive notRoot
    obtain ⟨data', after, found', removed', applied, -, there⟩ := removes (represents.live id ▸ isLive) notRoot
    obtain rfl : data = data' := by
      rw [represents.data] at found
      exact Option.some.inj (found.symm.trans found')
    have isLive (other : NodeId) : result.contains other = true ↔ after.contains other = true := by
      rw [here.live, there.live, represents.live, represents.walk wellFormed formed]
    have gone (other : NodeId) (left : ¬ result.contains other = true) :
        result.get? other = none ∧ after.find? other = none :=
      ⟨Option.not_isSome_iff_eq_none.mp left, Option.not_isSome_iff_eq_none.mp (mt (isLive other).mpr left)⟩
    rw [removed, removed', applied]
    refine ⟨rfl, fun other => ?_, fun other => ?_, ?_⟩
    · by_cases left : result.contains other = true
      · rw [here.data other left, there.data other ((isLive other).mp left), represents.data]
      · rw [(gone other left).1, Sheet.get?, (gone other left).2]
        rfl
    · by_cases left : result.contains other = true
      · rw [here.children other left, there.children other ((isLive other).mp left), represents.lists]
      · rw [(resultFormed.missing left).2, (Sheet.childrenMissing (gone other left).2).1]
    · rw [Sheet.removeCases removed']
      exact fresh.trans represents.fresh
  · have refused : id = rootId ∨ arena.contains id = false := by
      rw [← Bool.not_eq_true]
      tauto
    obtain ⟨none, same⟩ := kept (represents.live id ▸ refused)
    rw [removeRefused refused, none, same]
    exact ⟨rfl, represents⟩

theorem applyRefines (change : Change) : (arena.apply change).Represents (sheet.apply change) := by
  cases change with
  | append parent data => exact (appendRefines represents wellFormed distinct parent data).2
  | insertBefore ref data => exact (insertRefines represents wellFormed distinct ref data).2
  | moveBefore ref id => exact (moveRefines represents wellFormed distinct ref id).2
  | remove id => exact (removeRefines represents wellFormed distinct id).2
  | update id edit =>
    refine ⟨fun other => ?_, fun other => ?_, ?_⟩
    · rw [Arena.apply, modifyGet, Sheet.apply, (sheet.modifyViews id edit other).1, represents.data, represents.data]
    · rw [Arena.apply, modifyChildren, Sheet.apply, (sheet.modifyViews id edit other).2, represents.lists]
    · rw [Arena.apply, (arena.modifyLinks id edit).2.2, represents.fresh, Sheet.apply, Sheet.modify]
      split <;> rfl

theorem changesRefine (changes : List Change) :
    (changes.foldl Arena.apply arena).Represents (changes.foldl Sheet.apply sheet) := by
  induction changes generalizing arena sheet with
  | nil => exact represents
  | cons change rest ih =>
    exact ih (applyRefines represents wellFormed distinct change) (wellFormed.apply change) (distinct.apply change)

end Edits

/-! ## Sheets that are read -/

theorem numberedParts {node : Node} {sub next : Forest Node} {fresh : NodeId}
    (numbered : (Forest.cons node sub next).ids = List.range' fresh (Forest.cons node sub next).size) :
    node.id = fresh ∧ sub.ids = List.range' (fresh + 1) sub.size ∧
      next.ids = List.range' (fresh + 1 + sub.size) next.size := by
  rw [Forest.idsCons, Forest.size, Nat.add_assoc, Nat.add_comm 1, List.range'_succ, ← List.range'_append_1] at numbered
  obtain ⟨top, rest⟩ := List.cons.inj numbered
  obtain ⟨inner, outer⟩ := List.append_inj rest (by rw [Forest.idsLength, List.length_range'])
  exact ⟨top, inner, outer⟩

theorem plantViews (wellFormed : arena.WellFormed) {parent : NodeId} (parentLive : arena.contains parent = true)
    (f : Forest Node) (numbered : f.ids = List.range' arena.fresh f.size) :
    (arena.plant parent (f.map Node.data)).fresh = arena.fresh + f.size ∧ ∀ other,
      (arena.plant parent (f.map Node.data)).get? other =
        ((f.find? other).map (·.1)).or (arena.get? other) ∧
      (arena.plant parent (f.map Node.data)).children other =
        (if other = parent then arena.children parent ++ f.roots.map Node.id
          else ((f.find? other).map fun node => node.2.roots.map Node.id).getD (arena.children other)) := by
  induction f generalizing arena parent with
  | nil => exact ⟨rfl, fun other => ⟨rfl, by split <;> simp_all [Forest.roots, Forest.find?, Forest.map, plant]⟩⟩
  | cons node sub next ihSub ihNext =>
    have once : (Forest.cons node sub next).ids.Nodup := numbered ▸ List.nodup_range'
    obtain ⟨topSub, topNext, -, -, apart⟩ := Forest.distinctCons once
    obtain ⟨top, inner, outer⟩ := numberedParts numbered
    have isLive := (wellFormed.grownRelinked none node.data parentLive).live
    have grown := wellFormed.grown none node.data parentLive
    have newLive := (isLive arena.fresh).mpr (.inl rfl)
    obtain ⟨subFresh, subViews⟩ := ihSub grown newLive inner
    obtain ⟨planted, still⟩ := grown.plant newLive (sub.map Node.data)
    have nextLive := still parent ((isLive parent).mpr (.inr parentLive))
    obtain ⟨nextFresh, nextViews⟩ := ihNext planted nextLive (by rw [outer, subFresh]; rfl)
    -- the parent is older than all of the forest
    have older : parent < arena.fresh := wellFormed.numbered parent parentLive
    have notTop : parent ≠ arena.fresh := Nat.ne_of_lt older
    have notSub : parent ∉ sub.ids := by
      rw [inner, List.mem_range'_1]
      exact fun within => Nat.lt_asymm older within.1
    have step : arena.plant parent ((Forest.cons node sub next).map Node.data) =
        ((arena.grown parent none node.data).plant arena.fresh (sub.map Node.data)).plant parent
          (next.map Node.data) := rfl
    rw [step]
    refine ⟨?_, fun other => ⟨?_, ?_⟩⟩
    · rw [nextFresh, subFresh, Forest.size]
      change arena.fresh + 1 + sub.size + next.size = _
      simp only [Nat.add_assoc]
    · rw [(nextViews other).1, (subViews other).1, grownGet, Forest.find?, top]
      by_cases here : other = arena.fresh
      · rw [if_pos here, if_pos here.symm, here, ← top, Forest.findNone topSub, Forest.findNone topNext]
        rfl
      · rw [if_neg here, if_neg (Ne.symm here), ← Forest.findEither apart, Option.or_assoc]
    · have none := (wellFormed.missing wellFormed.freshGone).2
      rw [(nextViews other).2, (subViews other).2, (subViews parent).2, wellFormed.grownChildren,
        wellFormed.grownChildren, wellFormed.grownChildren, if_neg notTop, if_pos rfl, Forest.findNone notSub,
        Forest.find?, top, if_neg notTop.symm, none]
      by_cases atParent : other = parent
      · rw [if_pos atParent, if_pos atParent, Forest.roots, List.map_cons, top]
        exact List.append_assoc ..
      · rw [if_neg atParent, if_neg atParent, if_neg atParent]
        by_cases here : other = arena.fresh
        · rw [if_pos here, if_pos here.symm, here, ← top, Forest.findNone topNext]
          rfl
        · rw [if_neg here, if_neg (Ne.symm here), ← Forest.findEither apart, Option.getD_or]

theorem parseRefines {source : String} {start : Arena} (ok : parse source = .ok start) :
    ∃ sheet, Sheet.parse source = .ok sheet ∧ start.Represents sheet := by
  obtain ⟨sheet, read, rfl⟩ := parseCases ok
  refine ⟨sheet, read, ?_⟩
  have distinct := Sheet.parseDistinct read
  obtain ⟨ps, after, -, nested, -⟩ := Sheet.parseExact.mp read
  obtain ⟨ids, fresh⟩ := nestedIds nested
  have rooted := emptyWellFormed.modify rootId fun _ => sheet.root
  have isFresh : (empty.modify rootId fun _ => sheet.root).fresh = 1 := (modifyLinks ..).2.2
  obtain ⟨planted, views⟩ := plantViews rooted rooted.rootLive sheet.body (isFresh ▸ ids)
  have outside : sheet.body.find? rootId = none := Forest.findNone distinct.rootOutside
  refine ⟨fun other => ?_, fun other => ?_, ?_⟩
  · rw [(views other).1, modifyGet]
    by_cases root : other = rootId
    · subst root
      rw [outside, if_pos rfl]
      rfl
    · have missing : empty.get? other = none :=
        Option.not_isSome_iff_eq_none.mp fun isLive => root (emptyLive.mp isLive)
      rw [if_neg root, missing, Option.or_none, Sheet.get?, Sheet.findBody sheet root]
  · rw [(views other).2, modifyChildren, modifyChildren, emptyChildren, emptyChildren]
    by_cases root : other = rootId
    · subst root
      rw [if_pos rfl]
      rfl
    · rw [if_neg root, Sheet.children, Sheet.below, Sheet.findBody sheet root]
      cases sheet.body.find? other <;> rfl
  · rw [planted, isFresh, fresh]

theorem emptyRefines : empty.Represents .empty := by
  refine ⟨fun id => ?_, fun id => ?_, rfl⟩
  · by_cases root : id = rootId
    · subst root
      rfl
    · have missing : empty.get? id = none :=
        Option.not_isSome_iff_eq_none.mp fun isLive => root (emptyLive.mp isLive)
      rw [missing, Sheet.get?, Sheet.findBody _ root]
      rfl
  · rw [emptyChildren]
    by_cases root : id = rootId
    · subst root
      rfl
    · rw [Sheet.children, Sheet.below, Sheet.findBody _ root]
      rfl

/- An arena and a sheet that begin alike: both empty, or both read from one text. -/
def Twins (arena : Arena) (sheet : Sheet) : Prop :=
  arena = empty ∧ sheet = .empty ∨ ∃ source, parse source = .ok arena ∧ Sheet.parse source = .ok sheet

theorem Twins.agree (twins : arena.Twins sheet) (changes : List Change) :
    (changes.foldl Arena.apply arena).Agrees (changes.foldl Sheet.apply sheet) := by
  have together (represents : arena.Represents sheet) (wellFormed : arena.WellFormed)
      (distinct : sheet.Distinct) :
      (changes.foldl Arena.apply arena).Agrees (changes.foldl Sheet.apply sheet) :=
    (changesRefine represents wellFormed distinct changes).agrees (wellFormed.changes changes)
      (distinct.changes changes)
  rcases twins with ⟨rfl, rfl⟩ | ⟨source, ok, read⟩
  · exact together emptyRefines emptyWellFormed Sheet.emptyDistinct
  · obtain ⟨own, same, represents⟩ := parseRefines ok
    obtain rfl : own = sheet := Except.ok.inj (same.symm.trans read)
    exact together represents (parseWellFormed ok) (Sheet.parseDistinct read)

theorem editedArenaWellFormed (start : Arena)
    (origin : start = empty ∨ ∃ source, parse source = .ok start) (changes : List Change) :
    (changes.foldl Arena.apply start).WellFormed ∧ (changes.foldl Arena.apply start).Walked ∧
    ∃ sheet, start.Twins sheet ∧ (changes.foldl Arena.apply start).Agrees (changes.foldl Sheet.apply sheet) := by
  have begun : start.WellFormed ∧ ∃ sheet, start.Twins sheet := by
    rcases origin with rfl | ⟨source, ok⟩
    · exact ⟨emptyWellFormed, .empty, .inl ⟨rfl, rfl⟩⟩
    · obtain ⟨sheet, read, -⟩ := parseRefines ok
      exact ⟨parseWellFormed ok, sheet, .inr ⟨source, ok, read⟩⟩
  obtain ⟨wellFormed, sheet, twins⟩ := begun
  have edited := wellFormed.changes changes
  exact ⟨edited, edited.walked, sheet, twins, twins.agree changes⟩

def mixedEdits : List Change :=
  [.append 1 (.rule "f"), .moveBefore 4 3, .moveBefore 0 1, .remove 2, .insertBefore 2 .root,
    .update 5 (·.setSelector "g"), .moveBefore 5 1]

/- Some of these edits are refused: the root is no sibling, and node 2 is gone when it is looked for. -/
theorem editedArenaWellFormedMixed :
    ∃ start, parse "a \x7b b: c; d \x7b\x7d \x7d e \x7b\x7d" = .ok start ∧
      (mixedEdits.foldl Arena.apply start).WellFormed ∧
      ∃ sheet, (mixedEdits.foldl Arena.apply start).Agrees (mixedEdits.foldl Sheet.apply sheet) := by
  obtain ⟨sheet, ok⟩ : ∃ sheet, Sheet.parse "a \x7b b: c; d \x7b\x7d \x7d e \x7b\x7d" = .ok sheet :=
    Sheet.parses (by decide +kernel)
  obtain ⟨start, read⟩ : ∃ start, parse "a \x7b b: c; d \x7b\x7d \x7d e \x7b\x7d" = .ok start :=
    ⟨_, by rw [parse, ok]; rfl⟩
  obtain ⟨wellFormed, -, sheet, -, agrees⟩ := editedArenaWellFormed start (.inr ⟨_, read⟩) mixedEdits
  exact ⟨start, read, wellFormed, sheet, agrees⟩

end Arena
end SheetLint
