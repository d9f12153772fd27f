import SheetLint.Proofs.ForestIds

/-! Edits as replacements. To change a node, to take it out or to move its first child in front of it
is to put another forest in its place; replacements compose, and reach into one part of a forest only. -/
namespace SheetLint.Forest

def replace (id : NodeId) (tree : Forest Node) : Forest Node → Forest Node
  | nil => nil
  | cons node children next =>
    if node.id = id then tree ++ replace id tree next
    else cons node (replace id tree children) (replace id tree next)

def mapRoots (f : NodeData → NodeData) : Forest Node → Forest Node
  | nil => nil
  | cons node children next => cons { node with data := f node.data } children (mapRoots f next)

@[simp] theorem mapRootsIds (change : NodeData → NodeData) (f : Forest Node) :
    (f.mapRoots change).ids = f.ids := by
  induction f with
  | nil => rfl
  | cons node children next _ ih => rw [mapRoots, idsCons, idsCons, ih]

@[simp] theorem mapRootsRoots (change : NodeData → NodeData) (f : Forest Node) :
    (f.mapRoots change).roots.map Node.id = f.roots.map Node.id := by
  induction f with
  | nil => rfl
  | cons node children next _ ih => rw [mapRoots, roots, roots, List.map_cons, List.map_cons, ih]

theorem replaceAppend (id : NodeId) (tree f g : Forest Node) :
    replace id tree (f ++ g) = replace id tree f ++ replace id tree g := by
  induction f with
  | nil => rfl
  | cons node children next _ ih =>
    rw [consAppend, replace, replace, ih]
    split
    · rw [appendAssoc]
    · rfl

theorem replaceAbsent {f : Forest Node} {id : NodeId} (absent : id ∉ f.ids) (tree : Forest Node) :
    replace id tree f = f := by
  induction f with
  | nil => rfl
  | cons node children next ihc ihn =>
    rw [idsCons, List.mem_cons, List.mem_append, not_or, not_or] at absent
    rw [replace, if_neg (Ne.symm absent.1), ihc absent.2.1, ihn absent.2.2]

theorem replaceTwice (id : NodeId) (tree inner f : Forest Node) :
    replace id tree (replace id inner f) = replace id (replace id tree inner) f := by
  induction f with
  | nil => rfl
  | cons node children next ihc ihn =>
    rw [replace, replace]
    split
    · rw [replaceAppend, ihn]
    · next other => rw [replace, if_neg other, ihc, ihn]

theorem mapMap {α β γ : Type} (g : β → γ) (h : α → β) (f : Forest α) :
    (f.map h).map g = f.map (g ∘ h) := by
  induction f with
  | nil => rfl
  | cons a children next ihc ihn => rw [map, map, map, ihc, ihn, Function.comp_apply]

variable {f : Forest Node} {id : NodeId} {data : NodeData} {children : Forest Node}

theorem findCases {node : Node} {sub next : Forest Node} (once : (ids (.cons node sub next)).Nodup)
    (found : find? id (.cons node sub next) = some (data, children)) :
    (node = ⟨id, data⟩ ∧ sub = children ∧ id ∉ next.ids) ∨
      (node.id ≠ id ∧ sub.find? id = some (data, children) ∧ id ∉ next.ids) ∨
      (node.id ≠ id ∧ next.find? id = some (data, children) ∧ id ∉ sub.ids) := by
  obtain ⟨topSub, topNext, -, -, apart⟩ := distinctCons once
  rw [find?] at found
  split at found
  · next same =>
    subst same
    cases found
    exact .inl ⟨rfl, rfl, topNext⟩
  · next other =>
    rcases Option.or_eq_some_iff.mp found with inside | ⟨none, behind⟩
    · have present := findIsSome.mp (Option.isSome_of_eq_some inside)
      exact .inr (.inl ⟨other, inside, apart id present⟩)
    · have absent : id ∉ sub.ids := by
        intro present
        rw [← findIsSome, none] at present
        cases present
      exact .inr (.inr ⟨other, behind, absent⟩)

theorem replaceSame (once : f.ids.Nodup) (found : f.find? id = some (data, children)) :
    replace id (.cons ⟨id, data⟩ children .nil) f = f := by
  induction f with
  | nil => cases found
  | cons node sub next ihc ihn =>
    obtain ⟨-, -, subOnce, nextOnce, -⟩ := distinctCons once
    rcases findCases once found with ⟨rfl, rfl, absent⟩ | ⟨other, inside, absent⟩ | ⟨other, behind, absent⟩
    · rw [replace, if_pos rfl, replaceAbsent absent]
      rfl
    · rw [replace, if_neg other, ihc subOnce inside, replaceAbsent absent]
    · rw [replace, if_neg other, ihn nextOnce behind, replaceAbsent absent]

theorem findOnce (once : f.ids.Nodup) (found : f.find? id = some (data, children)) :
    children.ids.Nodup ∧ id ∉ children.ids := by
  induction f with
  | nil => cases found
  | cons node sub next ihc ihn =>
    obtain ⟨topSub, -, subOnce, nextOnce, -⟩ := distinctCons once
    rcases findCases once found with ⟨rfl, rfl, -⟩ | ⟨-, inside, -⟩ | ⟨-, behind, -⟩
    · exact ⟨subOnce, topSub⟩
    · exact ihc subOnce inside
    · exact ihn nextOnce behind

theorem findReplace (once : f.ids.Nodup) (found : f.find? id = some (data, children))
    (tree : Forest Node) {other : NodeId} (old : other = id ∨ other ∈ children.ids) :
    (replace id tree f).find? other = tree.find? other := by
  have present : other ∈ f.ids := by
    rcases old with rfl | below
    · exact findIsSome.mp (Option.isSome_of_eq_some found)
    · exact (findBelow found).2 other below
  induction f with
  | nil => cases found
  | cons node sub next ihc ihn =>
    obtain ⟨topSub, topNext, subOnce, nextOnce, apart⟩ := distinctCons once
    rcases findCases once found with ⟨rfl, rfl, absent⟩ | ⟨ne, inside, absent⟩ | ⟨ne, behind, absent⟩
    · have away : other ∉ next.ids := by
        rcases old with rfl | below
        · exact absent
        · exact apart other below
      rw [replace, if_pos rfl, replaceAbsent absent, findAppend, findNone away, Option.or_none]
    · have here : other ∈ sub.ids := by
        rcases old with rfl | below
        · exact findIsSome.mp (Option.isSome_of_eq_some inside)
        · exact (findBelow inside).2 other below
      have differs : node.id ≠ other := fun same => topSub (same ▸ here)
      rw [replace, if_neg ne, find?, if_neg differs, ihc subOnce inside here, replaceAbsent absent,
        findNone (apart other here), Option.or_none]
    · have here : other ∈ next.ids := by
        rcases old with rfl | below
        · exact findIsSome.mp (Option.isSome_of_eq_some behind)
        · exact (findBelow behind).2 other below
      have differs : node.id ≠ other := fun same => topNext (same ▸ here)
      have away : other ∉ sub.ids := fun both => apart other both here
      rw [replace, if_neg ne, find?, if_neg differs, ihn nextOnce behind here, replaceAbsent absent,
        findNone away, Option.none_or]

theorem replaceSublist (once : f.ids.Nodup) (found : f.find? id = some (data, children))
    {tree : Forest Node} (fewer : tree.ids.Sublist (id :: children.ids)) :
    (replace id tree f).ids.Sublist f.ids := by
  induction f with
  | nil => cases found
  | cons node sub next ihc ihn =>
    obtain ⟨-, -, subOnce, nextOnce, -⟩ := distinctCons once
    rcases findCases once found with ⟨rfl, rfl, absent⟩ | ⟨other, inside, absent⟩ | ⟨other, behind, absent⟩
    · rw [replace, if_pos rfl, replaceAbsent absent, idsAppend, idsCons, ← List.cons_append]
      exact fewer.append_right _
    · rw [replace, if_neg other, replaceAbsent absent, idsCons, idsCons]
      exact ((ihc subOnce inside).append_right _).cons_cons _
    · rw [replace, if_neg other, replaceAbsent absent, idsCons, idsCons]
      exact ((ihn nextOnce behind).append_left _).cons_cons _

/-! ## Edits -/

theorem eraseReplace (f : Forest Node) (id : NodeId) : f.erase id = replace id .nil f := by
  induction f with
  | nil => rfl
  | cons node children next ihc ihn =>
    rw [erase, replace, ihc, ihn]
    rfl

theorem mapAbsent {change : Node → Node} (same : ∀ node ∈ f.labels, change node = node) :
    f.map change = f := by
  induction f with
  | nil => rfl
  | cons node children next ihc ihn =>
    rw [labels, List.forall_mem_cons, List.forall_mem_append] at same
    rw [map, same.1, ihc same.2.1, ihn same.2.2]

theorem labelsIds {node : Node} (inside : node ∈ f.labels) : node.id ∈ f.ids :=
  List.mem_map_of_mem inside

theorem labelFound (once : f.ids.Nodup) {node : Node} (inside : node ∈ f.labels) :
    (f.find? node.id).map (·.1) = some node.data := by
  induction f with
  | nil => cases inside
  | cons top children next ihc ihn =>
    obtain ⟨topChild, topNext, childOnce, nextOnce, apart⟩ := distinctCons once
    rw [labels, List.mem_cons, List.mem_append] at inside
    rw [find?]
    rcases inside with rfl | below | behind
    · rw [if_pos rfl]
      rfl
    · have listed := labelsIds below
      rw [if_neg (ne_of_mem_of_not_mem listed topChild).symm, findNone (apart node.id listed), Option.or_none]
      exact ihc childOnce below
    · have listed := labelsIds behind
      rw [if_neg (ne_of_mem_of_not_mem listed topNext).symm,
        findNone fun both => apart node.id both listed, Option.none_or]
      exact ihn nextOnce behind

theorem modifyAbsent (absent : id ∉ f.ids) (change : NodeData → NodeData) :
    f.modify id change = f := by
  refine mapAbsent fun node inside => ?_
  have other : node.id ≠ id := fun same => absent (same ▸ labelsIds inside)
  rw [if_neg other]

theorem modifyReplace (once : f.ids.Nodup) (found : f.find? id = some (data, children))
    (change : NodeData → NodeData) :
    f.modify id change = replace id (.cons ⟨id, change data⟩ children .nil) f := by
  induction f with
  | nil => cases found
  | cons node sub next ihc ihn =>
    obtain ⟨topSub, -, subOnce, nextOnce, -⟩ := distinctCons once
    have parts : modify id change (cons node sub next) =
        cons (if node.id = id then { node with data := change node.data } else node)
          (sub.modify id change) (next.modify id change) := rfl
    rcases findCases once found with ⟨rfl, rfl, absent⟩ | ⟨other, inside, absent⟩ | ⟨other, behind, absent⟩
    · rw [parts, if_pos rfl, replace, if_pos rfl, modifyAbsent topSub, modifyAbsent absent,
        replaceAbsent absent]
      rfl
    · rw [parts, if_neg other, replace, if_neg other, ihc subOnce inside, modifyAbsent absent,
        replaceAbsent absent]
    · rw [parts, if_neg other, replace, if_neg other, ihn nextOnce behind, modifyAbsent absent,
        replaceAbsent absent]

theorem modifyAll (changed : List NodeId) (once : changed.Nodup) (change : NodeData → NodeData)
    (f : Forest Node) :
    changed.foldl (fun f id => f.modify id change) f =
      f.map fun node => if node.id ∈ changed then { node with data := change node.data } else node := by
  induction changed generalizing f with
  | nil => exact (mapAbsent fun _ _ => if_neg List.not_mem_nil).symm
  | cons first rest ih =>
    obtain ⟨new, others⟩ := List.nodup_cons.mp once
    rw [List.foldl_cons, ih others, modify, mapMap]
    congr 1
    funext node
    by_cases same : node.id = first
    · subst same
      simp [new]
    · simp [same]

theorem mapRootsOnly {changed : List NodeId} {change : NodeData → NodeData} (once : f.ids.Nodup)
    (top : ∀ other ∈ f.ids, other ∈ changed ↔ other ∈ f.roots.map Node.id) :
    (f.map fun node => if node.id ∈ changed then { node with data := change node.data } else node) =
      f.mapRoots change := by
  induction f with
  | nil => rfl
  | cons node sub next _ ih =>
    obtain ⟨topSub, topNext, subOnce, nextOnce, apart⟩ := distinctCons once
    simp only [idsCons, List.mem_cons, List.mem_append, roots, List.map_cons] at top
    have first : node.id ∈ changed := (top node.id (.inl rfl)).mpr (.inl rfl)
    have below : ∀ other ∈ sub.ids, other ∉ changed := by
      intro other inside both
      rcases (top other (.inr (.inl inside))).mp both with rfl | root
      · exact topSub inside
      · exact apart other inside (rootsIds root)
    have behind : ∀ other ∈ next.ids, other ∈ changed ↔ other ∈ next.roots.map Node.id := by
      intro other inside
      rw [top other (.inr (.inr inside))]
      exact or_iff_right fun same => topNext (same ▸ inside)
    rw [map, mapRoots, if_pos first, ih nextOnce behind,
      mapAbsent fun node inside => if_neg (below node.id (labelsIds inside))]

theorem modifyChildren (once : f.ids.Nodup) (found : f.find? id = some (data, children))
    (change : NodeData → NodeData) :
    (children.roots.map Node.id).foldl (fun f child => f.modify child change) f =
      replace id (.cons ⟨id, data⟩ (children.mapRoots change) .nil) f := by
  have inChildren {other : NodeId} (root : other ∈ children.roots.map Node.id) :
      other ∈ children.ids := rootsIds root
  rw [modifyAll _ (rootsDistinct (findOnce once found).1)]
  induction f with
  | nil => cases found
  | cons node sub next ihc ihn =>
    obtain ⟨topSub, topNext, subOnce, nextOnce, apart⟩ := distinctCons once
    rcases findCases once found with ⟨rfl, rfl, absent⟩ | ⟨other, inside, absent⟩ | ⟨other, behind, absent⟩
    · have away : ∀ node ∈ next.labels, node.id ∉ sub.roots.map Node.id := fun node inside root =>
        apart node.id (inChildren root) (labelsIds inside)
      rw [map, replace, if_pos rfl, if_neg fun root => topSub (inChildren root),
        mapRootsOnly subOnce fun _ _ => Iff.rfl,
        mapAbsent fun node inside => if_neg (away node inside), replaceAbsent absent]
      rfl
    · have below {other : NodeId} (root : other ∈ children.roots.map Node.id) : other ∈ sub.ids :=
        (findBelow inside).2 other (inChildren root)
      rw [map, replace, if_neg other, if_neg fun root => topSub (below root), ihc subOnce inside,
        mapAbsent fun node mem => if_neg fun root => apart node.id (below root) (labelsIds mem),
        replaceAbsent absent]
    · have below {other : NodeId} (root : other ∈ children.roots.map Node.id) : other ∈ next.ids :=
        (findBelow behind).2 other (inChildren root)
      rw [map, replace, if_neg other, if_neg fun root => topNext (below root), ihn nextOnce behind,
        mapAbsent fun node mem => if_neg fun root => apart node.id (labelsIds mem) (below root),
        replaceAbsent absent]

theorem moveFirst {child : Node} {inner rest : Forest Node} (once : f.ids.Nodup)
    (found : f.find? id = some (data, .cons child inner rest)) :
    insertBefore id (.cons child inner .nil) (f.erase child.id) =
      replace id (.cons child inner (.cons ⟨id, data⟩ rest .nil)) f := by
  induction f with
  | nil => cases found
  | cons node sub next ihc ihn =>
    obtain ⟨topSub, topNext, subOnce, nextOnce, apart⟩ := distinctCons once
    have first : child.id ∈ ids (.cons child inner rest) := by simp
    rcases findCases once found with ⟨rfl, rfl, absent⟩ | ⟨other, inside, absent⟩ | ⟨other, behind, absent⟩
    · obtain ⟨-, childRest, -, -, -⟩ := distinctCons subOnce
      have differs : id ≠ child.id := fun same => topSub (same ▸ first)
      rw [erase, if_neg differs, erase, if_pos rfl, eraseAbsent childRest,
        eraseAbsent (apart child.id first), insertBefore, if_pos rfl, replace, if_pos rfl,
        replaceAbsent absent]
      rfl
    · have below := (findBelow inside).2 child.id first
      have differs : node.id ≠ child.id := fun same => topSub (same ▸ below)
      rw [erase, if_neg differs, eraseAbsent (apart child.id below), insertBefore, if_neg other,
        ihc subOnce inside, insertAbsent absent, replace, if_neg other, replaceAbsent absent]
    · have below := (findBelow behind).2 child.id first
      have differs : node.id ≠ child.id := fun same => topNext (same ▸ below)
      rw [erase, if_neg differs, eraseAbsent fun both => apart child.id both below, insertBefore,
        if_neg other, ihn nextOnce behind, insertAbsent absent, replace, if_neg other,
        replaceAbsent absent]

end SheetLint.Forest
