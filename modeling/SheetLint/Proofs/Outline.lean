import SheetLint.Proofs.Marks
import SheetLint.Proofs.TreeEdits

/-! The outline of a sheet: what walking from the root meets, each node with its kind and the place of its
parent in the walk. It depends on the shape of the tree and the kinds in it, and on nothing else. -/
namespace SheetLint

def Sheet.outline (sheet : Sheet) : List (Option Kind × Option Nat) :=
  let nodes := sheet.walk rootId
  nodes.map fun id =>
    ((sheet.get? id).map NodeData.kind, (sheet.parent? id).map ((rootId :: nodes).idxOf ·))

namespace Forest

def parents (above : NodeId) : Forest Node → List NodeId
  | nil => []
  | cons node children next => above :: (children.parents node.id ++ next.parents above)

def parentPlaces {α : Type} (above first : Nat) : Forest α → List Nat
  | nil => []
  | cons _ children next =>
    above :: (parentPlaces first (first + 1) children ++
      parentPlaces above (first + 1 + children.size) next)

theorem sizeMap {α β : Type} (change : α → β) (f : Forest α) : (f.map change).size = f.size := by
  rw [← labelsLength, labelsMap, List.length_map, labelsLength]

theorem parentPlacesMap {α β : Type} (change : α → β) (f : Forest α) (above first : Nat) :
    (f.map change).parentPlaces above first = f.parentPlaces above first := by
  induction f generalizing above first with
  | nil => rfl
  | cons a children next ihc ihn => rw [map, parentPlaces, parentPlaces, sizeMap, ihc, ihn]

variable {f : Forest Node}

theorem lookupCons {β : Type} {node : Node} {children next : Forest Node} {top : Option β}
    {inner outer : NodeId → Option β} (once : (ids (.cons node children next)).Nodup)
    (found : ∀ id, (inner id).isSome = true ↔ id ∈ children.ids) :
    (ids (.cons node children next)).map
        (fun id => if node.id = id then top else (inner id).or (outer id)) =
      top :: (children.ids.map inner ++ next.ids.map outer) := by
  obtain ⟨topChild, topNext, -, -, apart⟩ := distinctCons once
  rw [idsCons, List.map_cons, if_pos rfl, List.map_append]
  congr 2
  · refine List.map_congr_left fun id inside => ?_
    obtain ⟨b, present⟩ := Option.isSome_iff_exists.mp ((found id).mpr inside)
    rw [if_neg (ne_of_mem_of_not_mem inside topChild).symm, present, Option.some_or]
  · refine List.map_congr_left fun id inside => ?_
    have absent : inner id = none := by
      rw [← Option.not_isSome_iff_eq_none, found]
      exact fun above => apart id above inside
    rw [if_neg (ne_of_mem_of_not_mem inside topNext).symm, absent, Option.none_or]

theorem kindsFound (once : f.ids.Nodup) :
    f.ids.map (fun id => (f.find? id).map (·.1.kind)) = f.kinds.map some := by
  induction f with
  | nil => rfl
  | cons node children next ihc ihn =>
    obtain ⟨-, -, onceChild, onceNext, -⟩ := distinctCons once
    have split (id : NodeId) : ((cons node children next).find? id).map (·.1.kind) =
        if node.id = id then some node.kind
        else ((children.find? id).map (·.1.kind)).or ((next.find? id).map (·.1.kind)) := by
      rw [find?]
      split
      · rfl
      · exact Option.map_or
    simp only [split]
    rw [lookupCons once (by simp [findIsSome]), ihc onceChild, ihn onceNext]
    simp [kinds, labels]

theorem parentsFound (once : f.ids.Nodup) (above : NodeId) :
    f.ids.map (f.parentOf? · above) = (f.parents above).map some := by
  induction f generalizing above with
  | nil => rfl
  | cons node children next ihc ihn =>
    obtain ⟨-, -, onceChild, onceNext, -⟩ := distinctCons once
    simp only [parentOf?]
    rw [lookupCons once fun id => parentIsSome, ihc onceChild, ihn onceNext, parents]
    simp

theorem parentsPlaced {place : NodeId → Nat} {first : Nat} (above : NodeId)
    (order : f.ids.map place = List.range' first f.size) :
    (f.parents above).map place = f.parentPlaces (place above) first := by
  induction f generalizing above first with
  | nil => rfl
  | cons node children next ihc ihn =>
    rw [idsCons, List.map_cons, List.map_append, size, Nat.add_assoc, Nat.add_comm 1, List.range'_succ,
      ← List.range'_append_1] at order
    obtain ⟨top, others⟩ := List.cons.inj order
    obtain ⟨inner, outer⟩ := List.append_inj others (by simp [idsLength])
    rw [parents, parentPlaces, List.map_cons, List.map_append, ihc _ inner, ihn _ outer, top]

end Forest

namespace Sheet
variable {sheet : Sheet}

theorem Distinct.places (distinct : sheet.Distinct) :
    sheet.body.ids.map ((rootId :: sheet.body.ids).idxOf ·) = List.range' 1 sheet.body.size := by
  have once : (rootId :: sheet.body.ids).Nodup := List.nodup_cons.mpr ⟨distinct.rootOutside, distinct.once⟩
  refine List.ext_getElem (by simp [Forest.idsLength]) fun i inside _ => ?_
  rw [List.length_map] at inside
  have place := once.idxOf_getElem (i + 1) (Nat.succ_lt_succ inside)
  rw [List.getElem_cons_succ] at place
  rw [List.getElem_map, place, List.getElem_range']
  omega

theorem Distinct.walkKinds (distinct : sheet.Distinct) :
    (sheet.walk rootId).map (fun id => (sheet.get? id).map NodeData.kind) = sheet.body.kinds.map some := by
  rw [(childrenFound (findRoot sheet)).2, ← Forest.kindsFound distinct.once]
  refine List.map_congr_left fun id inside => ?_
  rw [get?, findBody sheet (distinct.ne inside), Option.map_map]
  rfl

theorem Distinct.walkParents (distinct : sheet.Distinct) :
    (sheet.walk rootId).map (fun id => (sheet.parent? id).map ((rootId :: sheet.walk rootId).idxOf ·)) =
      (sheet.body.parentPlaces 0 1).map some := by
  have root : (rootId :: sheet.body.ids).idxOf rootId = 0 := List.idxOf_cons_self
  have found := congrArg (List.map (Option.map ((rootId :: sheet.body.ids).idxOf ·)))
    (Forest.parentsFound distinct.once rootId)
  rw [List.map_map, List.map_map] at found
  rw [(childrenFound (findRoot sheet)).2, ← root, ← Forest.parentsPlaced rootId distinct.places,
    List.map_map]
  refine Eq.trans (List.map_congr_left fun id inside => ?_) found
  rw [parent?, if_neg (distinct.ne inside)]
  rfl

theorem outlineSame {other : Sheet} (distinct : sheet.Distinct) (distinct' : other.Distinct)
    (same : sheet.body.map Node.kind = other.body.map Node.kind) : sheet.outline = other.outline := by
  have parts {sheet : Sheet} (distinct : sheet.Distinct) : sheet.outline =
      ((sheet.body.map Node.kind).labels.map some).zip
        (((sheet.body.map Node.kind).parentPlaces 0 1).map some) := by
    rw [Forest.labelsMap, Forest.parentPlacesMap, ← distinct.walkParents]
    exact (congrArg (List.zip · _) distinct.walkKinds.symm).trans (List.zip_map' ..) |>.symm
  rw [parts distinct, parts distinct', same]

theorem outlineKinds {other : Sheet} (distinct : sheet.Distinct) (distinct' : other.Distinct)
    (same : sheet.outline = other.outline) : sheet.body.kinds = other.body.kinds := by
  have kinds := congrArg (List.map Prod.fst) same
  rw [outline, outline, List.map_map, List.map_map] at kinds
  have equal := distinct.walkKinds.symm.trans (Eq.trans kinds distinct'.walkKinds)
  exact List.map_injective_iff.mpr (fun _ _ => Option.some.inj) equal

end Sheet
end SheetLint
