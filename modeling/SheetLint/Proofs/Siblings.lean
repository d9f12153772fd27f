import SheetLint.Proofs.Surgery
import SheetLint.Proofs.TreeEdits

/-! A node among its siblings. The forest below a parent is taken apart at one of its trees, so that what
holds of a forest from tree to tree can be asked of a sheet by identifier. -/
namespace SheetLint

namespace Forest
variable {f : Forest Node} {id : NodeId} {data : NodeData} {children : Forest Node}

theorem rootParts (top : id ∈ f.roots.map Node.id) :
    ∃ front data children next, f = front ++ .cons ⟨id, data⟩ children next := by
  induction f with
  | nil => simp [roots] at top
  | cons node inner rest _ ih =>
    rw [roots, List.map_cons, List.mem_cons] at top
    rcases top with rfl | later
    · exact ⟨.nil, node.data, inner, rest, rfl⟩
    · obtain ⟨front, data, children, next, rfl⟩ := ih later
      exact ⟨.cons node inner front, data, children, next, rfl⟩

theorem findRootPart {front next : Forest Node} (once : (front ++ .cons ⟨id, data⟩ children next).ids.Nodup) :
    (front ++ .cons ⟨id, data⟩ children next).find? id = some (data, children) := by
  rw [idsAppend, List.nodup_append] at once
  have absent : id ∉ front.ids := fun early => once.2.2 id early id (by simp) rfl
  rw [findAppend, findNone absent, Option.none_or, find?, if_pos rfl]

theorem foundLabel (found : f.find? id = some (data, children)) : ⟨id, data⟩ ∈ f.labels := by
  induction f with
  | nil => cases found
  | cons node inner rest ihc ihn =>
    rw [find?] at found
    rw [labels, List.mem_cons, List.mem_append]
    split at found
    · next same =>
      subst same
      cases found
      exact .inl rfl
    · rcases Option.or_eq_some_iff.mp found with inside | ⟨-, behind⟩
      · exact .inr (.inl (ihc inside))
      · exact .inr (.inr (ihn behind))

theorem rootLabel {node : Node} (top : node ∈ f.roots) : node ∈ f.labels := by
  induction f with
  | nil => cases top
  | cons first inner rest _ ih =>
    rw [labels, List.mem_cons, List.mem_append]
    rcases List.mem_cons.mp top with rfl | later
    · exact .inl rfl
    · exact .inr (.inr (ih later))

theorem foundInherits {P : Forest Node → Prop}
    (down : ∀ node children next, P (.cons node children next) → P children ∧ P next)
    (found : f.find? id = some (data, children)) (own : P f) : P children := by
  induction f with
  | nil => cases found
  | cons node inner rest ihc ihn =>
    obtain ⟨below, behind⟩ := down node inner rest own
    rw [find?] at found
    split at found
    · cases found
      exact below
    · rcases Option.or_eq_some_iff.mp found with inside | ⟨-, later⟩
      · exact ihc inside below
      · exact ihn later behind

end Forest

namespace Sheet
variable {sheet : Sheet} {id parent : NodeId}

theorem foundInherits {P : Forest Node → Prop}
    (down : ∀ node children next, P (.cons node children next) → P children ∧ P next) {data : NodeData}
    {children : Forest Node} (found : sheet.find? id = some (data, children)) (own : P sheet.body) :
    P children := by
  by_cases top : id = rootId
  · subst top
    obtain ⟨-, rfl⟩ := Prod.mk.inj (Option.some.inj found)
    exact own
  · rw [findBody sheet top] at found
    exact Forest.foundInherits down found own

theorem Distinct.childParts (distinct : sheet.Distinct) (child : sheet.parent? id = some parent) :
    ∃ above front data children next,
      sheet.find? parent = some (above, front ++ .cons ⟨id, data⟩ children next) ∧
      sheet.find? id = some (data, children) := by
  obtain ⟨above, trees, found, top⟩ := childFound (distinct.parentList.mp child)
  obtain ⟨front, data, children, next, rfl⟩ := Forest.rootParts top
  obtain ⟨once, inside⟩ := distinct.below found
  refine ⟨above, front, data, children, next, found, ?_⟩
  rw [(inside id (Forest.rootsIds top)).2]
  exact Forest.findRootPart once

theorem Distinct.rootData (distinct : sheet.Distinct) {above : NodeData} {trees : Forest Node}
    (found : sheet.find? parent = some (above, trees)) {node : Node} (top : node ∈ trees.roots) :
    sheet.get? node.id = some node.data := by
  obtain ⟨once, inside⟩ := distinct.below found
  have listed := Forest.rootLabel top
  rw [get?, (inside node.id (Forest.labelsIds listed)).2]
  exact Forest.labelFound once listed

theorem Distinct.lastChild (distinct : sheet.Distinct) {above data : NodeData}
    {front children next : Forest Node}
    (found : sheet.find? parent = some (above, front ++ .cons ⟨id, data⟩ children next)) :
    (sheet.children parent).getLast? = some id ↔ next = .nil := by
  have listed := Forest.rootsDistinct (distinct.below found).1
  rw [Forest.rootsAppend, List.map_append, Forest.roots, List.map_cons, List.nodup_append,
    List.nodup_cons] at listed
  rw [(childrenFound found).1, Forest.rootsAppend, List.map_append, List.getLast?_append, Forest.roots,
    List.map_cons, List.getLast?_cons, Option.some_or, Option.some_inj]
  constructor
  · intro last
    cases later : (next.roots.map Node.id).getLast? with
    | none =>
      rw [List.getLast?_eq_none_iff, List.map_eq_nil_iff] at later
      cases next with
      | nil => rfl
      | cons => cases later
    | some other =>
      rw [later, Option.getD_some] at last
      exact absurd (last ▸ List.mem_of_getLast? later) listed.2.1.1
  · rintro rfl
    rfl

end Sheet
end SheetLint
