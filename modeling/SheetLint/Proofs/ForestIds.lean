import SheetLint.Sheet.Basic

/-! The identifiers of a forest under its operations. Looking up a node succeeds exactly on the
identifiers that occur; where none occurs twice, taking a tree out and putting one in only rearranges
the list of identifiers. -/
namespace SheetLint.Forest

@[simp] theorem idsNil : ids .nil = [] := rfl

@[simp] theorem idsCons (node : Node) (children next : Forest Node) :
    ids (.cons node children next) = node.id :: (children.ids ++ next.ids) := by
  simp [ids, labels]

@[simp] theorem idsAppend (f g : Forest Node) : (f ++ g).ids = f.ids ++ g.ids := by
  simp [ids]

theorem idsLength (f : Forest Node) : f.ids.length = f.size := by
  simp [ids, labelsLength]

theorem distinctCons {node : Node} {children next : Forest Node}
    (distinct : (ids (.cons node children next)).Nodup) :
    node.id ∉ children.ids ∧ node.id ∉ next.ids ∧ children.ids.Nodup ∧ next.ids.Nodup ∧
      ∀ id ∈ children.ids, id ∉ next.ids := by
  rw [idsCons, List.nodup_cons, List.nodup_append] at distinct
  obtain ⟨top, inner, outer, apart⟩ := distinct
  rw [List.mem_append, not_or] at top
  exact ⟨top.1, top.2, inner, outer, fun id below after => apart id below id after rfl⟩

theorem rootsIds {f : Forest Node} {id : NodeId} (top : id ∈ f.roots.map Node.id) : id ∈ f.ids := by
  induction f with
  | nil => simp [roots] at top
  | cons node children next _ ih =>
    rw [roots, List.map_cons] at top
    rcases List.mem_cons.mp top with rfl | later
    · simp
    · simp [ih later]

/-! ## Looking up -/

theorem findNone {f : Forest Node} {id : NodeId} (absent : id ∉ f.ids) : f.find? id = none := by
  induction f with
  | nil => rfl
  | cons node children next ihc ihn =>
    rw [idsCons, List.mem_cons, List.mem_append, not_or, not_or] at absent
    obtain ⟨other, below, after⟩ := absent
    rw [find?, if_neg (Ne.symm other), ihc below, ihn after]
    rfl

theorem findSome {f : Forest Node} {id : NodeId} (present : id ∈ f.ids) :
    ∃ data children, f.find? id = some (data, children) := by
  induction f with
  | nil => simp at present
  | cons node inner next ihc ihn =>
    by_cases top : node.id = id
    · exact ⟨node.data, inner, by rw [find?, if_pos top]⟩
    · rw [idsCons, List.mem_cons, List.mem_append] at present
      rw [find?, if_neg top]
      by_cases below : id ∈ inner.ids
      · obtain ⟨data, children, found⟩ := ihc below
        exact ⟨data, children, by rw [found]; rfl⟩
      · have after : id ∈ next.ids := by
          rcases present with same | below' | after
          · exact absurd same.symm top
          · exact absurd below' below
          · exact after
        rw [findNone below, Option.none_or]
        exact ihn after

theorem findIsSome {f : Forest Node} {id : NodeId} : (f.find? id).isSome = true ↔ id ∈ f.ids := by
  constructor
  · intro found
    apply Decidable.byContradiction
    intro absent
    rw [findNone absent] at found
    cases found
  · intro present
    obtain ⟨data, children, found⟩ := findSome present
    rw [found]
    rfl

theorem findBelow {f : Forest Node} {id : NodeId} {data : NodeData} {children : Forest Node}
    (found : f.find? id = some (data, children)) :
    children.size < f.size ∧ ∀ other ∈ children.ids, other ∈ f.ids := by
  induction f with
  | nil => simp [find?] at found
  | cons node inner next ihc ihn =>
    rw [find?] at found
    split at found
    · cases found
      exact ⟨by simp only [size]; omega, fun other mem => by simp [mem]⟩
    · rcases Option.or_eq_some_iff.mp found with below | ⟨-, after⟩
      · obtain ⟨smaller, within⟩ := ihc below
        exact ⟨by simp only [size]; omega, fun other mem => by simp [within other mem]⟩
      · obtain ⟨smaller, within⟩ := ihn after
        exact ⟨by simp only [size]; omega, fun other mem => by simp [within other mem]⟩

theorem findAppend (f g : Forest Node) (id : NodeId) :
    (f ++ g).find? id = (f.find? id).or (g.find? id) := by
  induction f with
  | nil => rfl
  | cons node children next _ ih =>
    rw [consAppend, find?, find?]
    split
    · rfl
    · rw [ih, Option.or_assoc]

theorem findInside {f : Forest Node} (distinct : f.ids.Nodup) {id inner : NodeId}
    {data : NodeData} {children : Forest Node} (found : f.find? id = some (data, children))
    (below : inner ∈ children.ids) : f.find? inner = children.find? inner := by
  induction f with
  | nil => simp [find?] at found
  | cons node sub next ihc ihn =>
    obtain ⟨topSub, topNext, subOnce, nextOnce, apart⟩ := distinctCons distinct
    rw [find?] at found
    split at found
    · cases found
      have other : node.id ≠ inner := fun same => topSub (same ▸ below)
      rw [find?, if_neg other, findNone (apart inner below), Option.or_none]
    · rcases Option.or_eq_some_iff.mp found with inSub | ⟨-, inNext⟩
      · have present := (findBelow inSub).2 inner below
        have other : node.id ≠ inner := fun same => topSub (same ▸ present)
        rw [find?, if_neg other, findNone (apart inner present), Option.or_none]
        exact ihc subOnce inSub
      · have present := (findBelow inNext).2 inner below
        have other : node.id ≠ inner := fun same => topNext (same ▸ present)
        have absent : inner ∉ sub.ids := fun mem => apart inner mem present
        rw [find?, if_neg other, findNone absent, Option.none_or]
        exact ihn nextOnce inNext

theorem rootsDistinct {f : Forest Node} (once : f.ids.Nodup) : (f.roots.map Node.id).Nodup := by
  induction f with
  | nil => simp [roots]
  | cons node children next _ ih =>
    obtain ⟨_, topNext, _, nextOnce, _⟩ := distinctCons once
    rw [roots, List.map_cons, List.nodup_cons]
    exact ⟨fun top => topNext (rootsIds top), ih nextOnce⟩

theorem idsFlat {f : Forest Node} (once : f.ids.Nodup) (inner : NodeId → List NodeId)
    (same : ∀ id data children, f.find? id = some (data, children) → inner id = children.ids) :
    f.ids = (f.roots.map Node.id).flatMap fun id => id :: inner id := by
  induction f with
  | nil => rfl
  | cons node children next _ ih =>
    obtain ⟨_, topNext, _, nextOnce, apart⟩ := distinctCons once
    have top : inner node.id = children.ids := same node.id node.data children (by rw [find?, if_pos rfl])
    have rest := ih nextOnce fun id data below found => by
      have present := findIsSome.mp (by rw [found]; rfl : (next.find? id).isSome = true)
      have other : node.id ≠ id := fun eq => topNext (eq ▸ present)
      have absent : id ∉ children.ids := fun mem => apart id mem present
      exact same id data below (by rw [find?, if_neg other, findNone absent, Option.none_or, found])
    rw [idsCons, roots, List.map_cons, List.flatMap_cons, top, ← rest, List.cons_append]

/-! ## Parents -/

theorem parentIsSome {f : Forest Node} {id above : NodeId} :
    (f.parentOf? id above).isSome = true ↔ id ∈ f.ids := by
  induction f generalizing above with
  | nil => simp [parentOf?]
  | cons node children next ihc ihn =>
    rw [parentOf?]
    split
    · next same => simp [same]
    · next other =>
      rw [Option.isSome_or, Bool.or_eq_true, ihc, ihn, idsCons, List.mem_cons, List.mem_append]
      constructor
      · exact Or.inr
      · rintro (same | mem)
        · exact absurd same.symm other
        · exact mem

theorem parentExact {f : Forest Node} (distinct : f.ids.Nodup) {id above parent : NodeId}
    (outside : above ∉ f.ids) :
    f.parentOf? id above = some parent ↔
      (parent = above ∧ id ∈ f.roots.map Node.id) ∨
        ∃ data children, f.find? parent = some (data, children) ∧ id ∈ children.roots.map Node.id := by
  induction f generalizing above with
  | nil => simp [parentOf?, roots, find?]
  | cons node sub next ihc ihn =>
    obtain ⟨topSub, topNext, subOnce, nextOnce, apart⟩ := distinctCons distinct
    rw [idsCons, List.mem_cons, List.mem_append, not_or, not_or] at outside
    obtain ⟨aboveTop, aboveSub, aboveNext⟩ := outside
    have inSub := ihc subOnce topSub
    have inNext := ihn nextOnce aboveNext
    rw [parentOf?]
    by_cases top : node.id = id
    · rw [if_pos top]
      constructor
      · intro same
        cases same
        exact .inl ⟨rfl, by simp [roots, top]⟩
      · rintro (⟨same, -⟩ | ⟨data, children, found, child⟩)
        · rw [same]
        · -- a child of any node of the forest stands below its top, so it is not the top
          have present := rootsIds child
          rw [find?] at found
          split at found
          · cases found
            exact absurd (top ▸ present) topSub
          · rcases Option.or_eq_some_iff.mp found with below | ⟨-, after⟩
            · exact absurd (top ▸ (findBelow below).2 id present) topSub
            · exact absurd (top ▸ (findBelow after).2 id present) topNext
    · rw [if_neg top, Option.or_eq_some_iff, inSub, inNext]
      constructor
      · rintro ((⟨same, child⟩ | ⟨data, children, found, child⟩) | ⟨-, rest⟩)
        · exact .inr ⟨node.data, sub, by rw [find?, if_pos same.symm], child⟩
        · have present := findIsSome.mp (by rw [found]; rfl : (sub.find? parent).isSome = true)
          have other : node.id ≠ parent := fun same => topSub (same ▸ present)
          exact .inr ⟨data, children, by rw [find?, if_neg other, found]; rfl, child⟩
        · rcases rest with ⟨same, child⟩ | ⟨data, children, found, child⟩
          · exact .inl ⟨same, by simp [roots, child]⟩
          · have present := findIsSome.mp (by rw [found]; rfl : (next.find? parent).isSome = true)
            have other : node.id ≠ parent := fun same => topNext (same ▸ present)
            have absent : parent ∉ sub.ids := fun mem => apart parent mem present
            exact .inr ⟨data, children,
              by rw [find?, if_neg other, findNone absent, Option.none_or, found], child⟩
      · rintro (⟨same, child⟩ | ⟨data, children, found, child⟩)
        · rw [roots, List.map_cons, List.mem_cons] at child
          rcases child with same' | child
          · exact absurd same'.symm top
          · have absent : id ∉ sub.ids := fun mem => apart id mem (rootsIds child)
            have none : sub.parentOf? id node.id = none := by
              rw [← Option.not_isSome_iff_eq_none, parentIsSome]
              exact absent
            exact .inr ⟨none, .inl ⟨same, child⟩⟩
        · rw [find?] at found
          split at found
          · next same =>
            cases found
            exact .inl (.inl ⟨same.symm, child⟩)
          · rcases Option.or_eq_some_iff.mp found with below | ⟨-, after⟩
            · exact .inl (.inr ⟨data, children, below, child⟩)
            · have present := (findBelow after).2 id (rootsIds child)
              have absent : id ∉ sub.ids := fun mem => apart id mem present
              have none : sub.parentOf? id node.id = none := by
                rw [← Option.not_isSome_iff_eq_none, parentIsSome]
                exact absent
              exact .inr ⟨none, .inr ⟨data, children, after, child⟩⟩

/-! ## Taking out and putting in -/

theorem eraseAbsent {f : Forest Node} {id : NodeId} (absent : id ∉ f.ids) : f.erase id = f := by
  induction f with
  | nil => rfl
  | cons node children next ihc ihn =>
    rw [idsCons, List.mem_cons, List.mem_append, not_or, not_or] at absent
    obtain ⟨other, below, after⟩ := absent
    rw [erase, if_neg (Ne.symm other), ihc below, ihn after]

theorem insertAbsent {f : Forest Node} {ref : NodeId} (absent : ref ∉ f.ids) (tree : Forest Node) :
    insertBefore ref tree f = f := by
  induction f with
  | nil => rfl
  | cons node children next ihc ihn =>
    rw [idsCons, List.mem_cons, List.mem_append, not_or, not_or] at absent
    obtain ⟨other, below, after⟩ := absent
    rw [insertBefore, if_neg (Ne.symm other), ihc below, ihn after]

theorem appendAbsent {f : Forest Node} {parent : NodeId} (absent : parent ∉ f.ids)
    (tree : Forest Node) : appendTo parent tree f = f := by
  induction f with
  | nil => rfl
  | cons node children next ihc ihn =>
    rw [idsCons, List.mem_cons, List.mem_append, not_or, not_or] at absent
    obtain ⟨other, below, after⟩ := absent
    rw [appendTo, if_neg (Ne.symm other), ihc below, ihn after]

theorem modifyIds (f : Forest Node) (id : NodeId) (change : NodeData → NodeData) :
    (f.modify id change).ids = f.ids := by
  unfold ids modify
  rw [labelsMap, List.map_map]
  apply List.map_congr_left
  intro node _
  dsimp only [Function.comp]
  split <;> rfl

theorem eraseIds {f : Forest Node} (distinct : f.ids.Nodup) {id : NodeId} {data : NodeData}
    {children : Forest Node} (found : f.find? id = some (data, children)) :
    f.ids.Perm ((id :: children.ids) ++ (f.erase id).ids) := by
  induction f with
  | nil => simp [find?] at found
  | cons node sub next ihc ihn =>
    obtain ⟨topSub, topNext, subOnce, nextOnce, apart⟩ := distinctCons distinct
    rw [find?] at found
    split at found
    · next same =>
      cases found
      rw [erase, if_pos same, eraseAbsent (same ▸ topNext), idsCons, same, List.cons_append]
    · next other =>
      rw [erase, if_neg other, idsCons, idsCons]
      rcases Option.or_eq_some_iff.mp found with below | ⟨-, after⟩
      · have present := findIsSome.mp (by rw [below]; rfl : (sub.find? id).isSome = true)
        rw [eraseAbsent (apart id present)]
        calc node.id :: (sub.ids ++ next.ids)
            |>.Perm (node.id :: (((id :: children.ids) ++ (sub.erase id).ids) ++ next.ids)) :=
              ((ihc subOnce below).append_right _).cons _
          _ |>.Perm ((id :: children.ids) ++ node.id :: ((sub.erase id).ids ++ next.ids)) := by
              rw [List.append_assoc]
              exact List.perm_middle.symm
      · have present := findIsSome.mp (by rw [after]; rfl : (next.find? id).isSome = true)
        have absent : id ∉ sub.ids := fun mem => apart id mem present
        rw [eraseAbsent absent]
        have tail := (ihn nextOnce after).append_left sub.ids
        have moved : (sub.ids ++ ((id :: children.ids) ++ (next.erase id).ids)).Perm
            ((id :: children.ids) ++ (sub.ids ++ (next.erase id).ids)) := by
          rw [← List.append_assoc, ← List.append_assoc]
          exact List.perm_append_comm.append_right _
        exact ((tail.trans moved).cons _).trans List.perm_middle.symm

theorem eraseSublist (f : Forest Node) (id : NodeId) : (f.erase id).ids.Sublist f.ids := by
  induction f with
  | nil => exact List.Sublist.refl _
  | cons node children next ihc ihn =>
    rw [erase, idsCons]
    split
    · exact (ihn.trans (List.sublist_append_right _ _)).cons _
    · rw [idsCons]
      exact (ihc.append ihn).cons_cons _

theorem insertIds {f : Forest Node} (distinct : f.ids.Nodup) {ref : NodeId} (present : ref ∈ f.ids)
    (tree : Forest Node) : (insertBefore ref tree f).ids.Perm (tree.ids ++ f.ids) := by
  induction f with
  | nil => simp at present
  | cons node sub next ihc ihn =>
    obtain ⟨topSub, topNext, subOnce, nextOnce, apart⟩ := distinctCons distinct
    rw [insertBefore]
    split
    · rw [idsAppend]
    · next other =>
      rw [idsCons, idsCons]
      rw [idsCons, List.mem_cons, List.mem_append] at present
      rcases present with same | below | after
      · exact absurd same.symm other
      · rw [insertAbsent (apart ref below)]
        have inner := ((ihc subOnce below).append_right next.ids).cons node.id
        rw [List.append_assoc] at inner
        exact inner.trans List.perm_middle.symm
      · have absent : ref ∉ sub.ids := fun mem => apart ref mem after
        rw [insertAbsent absent]
        have outer := (ihn nextOnce after).append_left sub.ids
        have moved : (sub.ids ++ (tree.ids ++ next.ids)).Perm (tree.ids ++ (sub.ids ++ next.ids)) := by
          rw [← List.append_assoc, ← List.append_assoc]
          exact List.perm_append_comm.append_right _
        exact ((outer.trans moved).cons _).trans List.perm_middle.symm

theorem appendIds {f : Forest Node} (distinct : f.ids.Nodup) {parent : NodeId}
    (present : parent ∈ f.ids) (tree : Forest Node) :
    (appendTo parent tree f).ids.Perm (f.ids ++ tree.ids) := by
  induction f with
  | nil => simp at present
  | cons node sub next ihc ihn =>
    obtain ⟨topSub, topNext, subOnce, nextOnce, apart⟩ := distinctCons distinct
    have later : (sub.ids ++ tree.ids ++ next.ids).Perm (sub.ids ++ next.ids ++ tree.ids) := by
      rw [List.append_assoc, List.append_assoc]
      exact List.perm_append_comm.append_left _
    rw [appendTo]
    split
    · rw [idsCons, idsAppend, idsCons, List.cons_append]
      exact later.cons _
    · next other =>
      rw [idsCons, idsCons, List.cons_append]
      rw [idsCons, List.mem_cons, List.mem_append] at present
      rcases present with same | below | after
      · exact absurd same.symm other
      · rw [appendAbsent (apart parent below)]
        exact (((ihc subOnce below).append_right _).trans later).cons _
      · have absent : parent ∉ sub.ids := fun mem => apart parent mem after
        rw [appendAbsent absent, List.append_assoc]
        exact ((ihn nextOnce after).append_left _).cons _

end SheetLint.Forest
