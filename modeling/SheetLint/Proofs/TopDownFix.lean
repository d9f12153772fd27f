import SheetLint.Proofs.Relocation
import SheetLint.Sheet.Print

/-! The fix of misplaced combinators, from the top of the tree down. A run goes over the rules that the
sheet had at first, while nodes are renamed, moved and taken out; `topDown` is the recursion that this
comes to on every well-formed sheet. Nothing but selectors of rules and the place of their children
changes on the way. -/
namespace SheetLint

/-! ## Well-formed sheets -/

namespace Sheet
open Forest

def renumber (fresh : NodeId) (sheet : Sheet) : Sheet := { sheet with fresh }

theorem WellFormed.once {sheet : Sheet} (wellFormed : sheet.WellFormed) : sheet.body.ids.Nodup := by
  have once := wellFormed.walkOnce
  rwa [(childrenFound (findRoot sheet)).2] at once

theorem idsBounded (ids : List Nat) : ∃ bound, ∀ id ∈ ids, id < bound := by
  induction ids with
  | nil => exact ⟨0, by simp⟩
  | cons first rest ih =>
    obtain ⟨bound, below⟩ := ih
    refine ⟨max (first + 1) bound, ?_⟩
    intro id inside
    rcases List.mem_cons.mp inside with rfl | later
    · omega
    · have := below id later
      omega

theorem WellFormed.rootOutside {sheet : Sheet} (wellFormed : sheet.WellFormed) :
    rootId ∉ sheet.body.ids := by
  intro inside
  have orphan (parent : NodeId) : rootId ∉ sheet.children parent := by
    rw [← wellFormed.parentList, wellFormed.rootTop]
    simp
  obtain ⟨bound, below⟩ := idsBounded sheet.body.ids
  have outside : bound ∉ sheet.body.ids := fun mem => Nat.lt_irrefl _ (below bound mem)
  obtain ⟨parent, above⟩ := Option.isSome_iff_exists.mp ((@parentIsSome _ _ bound).mpr inside)
  rcases (parentExact wellFormed.once outside).mp above with ⟨-, top⟩ | ⟨data, children, found, child⟩
  · exact orphan rootId (by rw [(childrenFound (findRoot sheet)).1]; exact top)
  · have other : parent ≠ rootId := by
      rintro rfl
      exact (findOnce wellFormed.once found).2 (rootsIds child)
    rw [← findBody sheet other] at found
    exact orphan parent (by rw [(childrenFound found).1]; exact child)

theorem WellFormed.distinct {sheet : Sheet} (wellFormed : sheet.WellFormed) :
    ∃ fresh, (sheet.renumber fresh).Distinct := by
  obtain ⟨bound, below⟩ := idsBounded sheet.body.ids
  refine ⟨bound + 1, wellFormed.once, ?_, Nat.succ_pos bound⟩
  intro id inside
  have other : id ≠ rootId := fun same => wellFormed.rootOutside (same ▸ inside)
  exact ⟨Nat.pos_of_ne_zero other, Nat.lt_succ_of_lt (below id inside)⟩

end Sheet

def Node.frame (node : Node) : NodeId × Raws × Option Span :=
  (node.id, node.data.raws, node.data.span)

theorem setSelectorFrame (id : NodeId) (data : NodeData) (selector : String) :
    Node.frame ⟨id, data.setSelector selector⟩ = Node.frame ⟨id, data⟩ := by
  unfold NodeData.setSelector
  split <;> rfl

theorem Forest.mapRootsSize (change : NodeData → NodeData) (f : Forest Node) :
    (f.mapRoots change).size = f.size := by
  rw [← idsLength, mapRootsIds, idsLength]

namespace CombinatorRule
open Forest

theorem modifyRenumber (fresh : NodeId) (sheet : Sheet) (id : NodeId) (change : NodeData → NodeData) :
    (sheet.renumber fresh).modify id change = (sheet.modify id change).renumber fresh := by
  unfold Sheet.modify
  split <;> rfl

theorem moveRenumber (fresh : NodeId) (sheet : Sheet) (id child : NodeId) :
    ((sheet.renumber fresh).moveBefore? id child).getD (sheet.renumber fresh) =
      ((sheet.moveBefore? id child).getD sheet).renumber fresh := by
  have same : (sheet.renumber fresh).moveBefore? id child =
      (sheet.moveBefore? id child).map (Sheet.renumber fresh) := by
    have views : (sheet.renumber fresh).isBelow = sheet.isBelow ∧
        (sheet.renumber fresh).find? = sheet.find? ∧ (sheet.renumber fresh).parent? = sheet.parent? :=
      ⟨rfl, rfl, rfl⟩
    unfold Sheet.moveBefore?
    rw [views.1, views.2.1, views.2.2]
    split
    · rfl
    · cases sheet.find? child <;> cases sheet.parent? id <;> rfl
  rw [same]
  cases sheet.moveBefore? id child <;> rfl

theorem dissolveRenumber (fresh : NodeId) (sheet : Sheet) (id : NodeId) (children : List NodeId) :
    dissolve (sheet.renumber fresh) id children = (dissolve sheet id children).renumber fresh := by
  unfold dissolve
  dsimp only
  rw [List.foldl_hom (Sheet.renumber fresh) fun sheet child => moveRenumber fresh sheet id child]
  generalize children.foldl _ sheet = hoisted
  have found : (hoisted.renumber fresh).find? id = hoisted.find? id := rfl
  unfold Sheet.remove?
  rw [found]
  split
  · rfl
  · cases hoisted.find? id <;> rfl

theorem fixOneRenumber (rule : CombinatorRule) (fresh : NodeId) (sheet : Sheet) (id : NodeId) :
    rule.fixOne (sheet.renumber fresh) id = (rule.fixOne sheet id).renumber fresh := by
  have views : (sheet.renumber fresh).get? = sheet.get? ∧
      (sheet.renumber fresh).children = sheet.children := ⟨rfl, rfl⟩
  unfold fixOne
  rw [views.1]
  split
  · unfold relocate
    dsimp only
    rw [views.2, List.foldl_hom (Sheet.renumber fresh) fun sheet child =>
      modifyRenumber fresh sheet child _]
    split
    · exact dissolveRenumber fresh _ id _
    · exact modifyRenumber fresh _ id _
  · rfl

theorem runRenumber (rule : CombinatorRule) (fresh : NodeId) (sheet : Sheet) :
    (rule.run .fix (sheet.renumber fresh)).sheet = (rule.run .fix sheet).sheet.renumber fresh := by
  rw [runFix, runFix]
  exact List.foldl_hom (Sheet.renumber fresh) fun sheet id => rule.fixOneRenumber fresh sheet id

theorem runWellFormed (rule : CombinatorRule) {sheet : Sheet} (wellFormed : sheet.WellFormed) :
    rule.run .fix sheet = ⟨{ sheet with body := rule.fixed none sheet.body }, []⟩ := by
  obtain ⟨fresh, distinct⟩ := wellFormed.distinct
  have back := rule.runRenumber sheet.fresh (sheet.renumber fresh)
  rw [runFixed rule distinct, runFix] at back
  rw [runFix]
  exact congrArg (Outcome.mk · []) back

/-! ## The recursion -/

/- A rule whose selector ends in a combinator hands it to the rules right below it, and then gives way to
what is below it if no selector is left. -/
def topDown (rule : CombinatorRule) : Forest Node → Forest Node
  | .nil => .nil
  | .cons node children next =>
    match rule.fault? node.data with
    | some (combinator, selector) =>
      let below := rule.topDown (children.mapRoots (prefixSelector combinator))
      let rest := remaining combinator selector
      if rest = [] ∨ rest = ['&'] then below ++ rule.topDown next
      else
        .cons { node with data := node.data.setSelector (.ofList rest) } below (rule.topDown next)
    | none => .cons node (rule.topDown children) (rule.topDown next)
termination_by forest => forest.size
decreasing_by
  all_goals simp only [size, mapRootsSize]; omega

theorem fixedTopDown (rule : CombinatorRule) (pending : Option String) (f : Forest Node) :
    rule.fixed pending f = rule.topDown (f.mapRoots (carry pending)) := by
  induction f generalizing pending with
  | nil => rw [fixed, mapRoots, topDown]
  | cons node children next ihc ihn =>
    rw [fixed, mapRoots, topDown, ihn]
    dsimp only
    cases rule.fault? (carry pending node.data) with
    | none => simp only [ihc, carryNone]
    | some both =>
      obtain ⟨combinator, selector⟩ := both
      have below : rule.fixed (some combinator) children =
          rule.topDown (children.mapRoots (prefixSelector combinator)) := ihc (some combinator)
      simp only [below, shrink, gone, Bool.or_eq_true, List.isEmpty_iff, beq_iff_eq]
      split <;> rfl

/-! ## What stays -/

theorem carryFrame (pending : Option String) (id : NodeId) (data : NodeData) :
    Node.frame ⟨id, carry pending data⟩ = Node.frame ⟨id, data⟩ := by
  unfold carry prefixSelector
  split
  · split
    · exact setSelectorFrame id data _
    · rfl
  · rfl

theorem carryOther (pending : Option String) {data : NodeData} (other : data.isRule = false) :
    carry pending data = data := by
  unfold carry prefixSelector
  split
  · have none : data.selector? = none := by
      unfold NodeData.isRule at other
      unfold NodeData.selector?
      split at other
      · cases other
      · rfl
    rw [none]
  · rfl

theorem fixedFrames (rule : CombinatorRule) (pending : Option String) (f : Forest Node) :
    ((rule.fixed pending f).labels.map Node.frame).Sublist (f.labels.map Node.frame) := by
  induction f generalizing pending with
  | nil => exact List.Sublist.refl _
  | cons node children next ihc ihn =>
    have top : Node.frame ⟨node.id, carry pending node.data⟩ = node.frame := carryFrame _ _ _
    rw [fixed]
    dsimp only
    split
    · next combinator selector _ =>
      have rest := ((ihc (some combinator)).append (ihn pending))
      unfold shrink
      split
      · simp only [labelsAppend, labels, List.map_cons, List.map_append]
        exact rest.cons _
      · simp only [consAppend, nilAppend, labels, List.map_cons, List.map_append, setSelectorFrame, top]
        exact rest.cons_cons _
    · simp only [labels, List.map_cons, List.map_append, top]
      exact ((ihc none).append (ihn pending)).cons_cons _

theorem fixedOthers (rule : CombinatorRule) (pending : Option String) (f : Forest Node) :
    (rule.fixed pending f).labels.filter (fun node => !node.data.isRule) =
      f.labels.filter fun node => !node.data.isRule := by
  induction f generalizing pending with
  | nil => rfl
  | cons node children next ihc ihn =>
    rw [fixed]
    dsimp only
    cases isRule : node.data.isRule with
    | false =>
      rw [carryOther pending isRule, faultRule isRule]
      simp [labels, isRule, ihc, ihn]
    | true =>
      have own : (carry pending node.data).isRule = true := (carryRule pending _).trans isRule
      split
      · unfold shrink
        split <;> simp [labels, setSelectorRule, own, isRule, ihc, ihn]
      · simp [labels, own, isRule, ihc, ihn]

theorem fixRunsTopDown (rule : CombinatorRule) {sheet : Sheet} (wellFormed : sheet.WellFormed) :
    rule.run .fix sheet = ⟨{ sheet with body := rule.topDown sheet.body }, []⟩ ∧
      ((rule.topDown sheet.body).labels.map Node.frame).Sublist (sheet.body.labels.map Node.frame) ∧
      (rule.topDown sheet.body).labels.filter (fun node => !node.data.isRule) =
        sheet.body.labels.filter fun node => !node.data.isRule := by
  have recursion : rule.fixed none sheet.body = rule.topDown sheet.body := by
    rw [fixedTopDown, carryNone]
  rw [← recursion]
  exact ⟨rule.runWellFormed wellFormed, rule.fixedFrames none _, rule.fixedOthers none _⟩

def hoistedSource : String :=
  "a\x7b& >\x7b@m\x7b+ \x7bb ::v-deep\x7bc\x7b\x7d\x7d\x7d\x7dd:e\x7d\x7d"

def hoistedText : String := "a\x7b@m\x7b+ b\x7b::v-deep c\x7b\x7d\x7d\x7dd:e\x7d"

theorem fixRunsTopDownHoists :
    ∃ sheet, Sheet.parse hoistedSource = .ok sheet ∧ sheet.WellFormed ∧
      Sheet.print { sheet with body := (including ["::v-deep"] .error).topDown sheet.body } =
        hoistedText := by
  obtain ⟨sheet, ok⟩ : ∃ sheet, Sheet.parse hoistedSource = .ok sheet := Sheet.parses (by decide +kernel)
  have printed : (Sheet.parse hoistedSource).toOption.map
      (fun sheet => ((including ["::v-deep"] .error).run .fix sheet).sheet.print) = some hoistedText := by
    decide +kernel
  have wellFormed := (Sheet.parseDistinct ok).wellFormed
  rw [ok, Except.toOption, Option.map_some, (fixRunsTopDown _ wellFormed).1] at printed
  exact ⟨sheet, ok, wellFormed, Option.some.inj printed⟩

end CombinatorRule
end SheetLint
