import SheetLint.Combinator.Rule
import SheetLint.Proofs.Surgery
import SheetLint.Proofs.TreeEdits

/-! The fix of misplaced combinators as one recursion on the tree. `fixed` goes down with the combinator
that the rule above has given up; running over the rules of a sheet in document order, by identifier
and on the sheet as it is by then, comes to the same forest. -/
namespace SheetLint.CombinatorRule
open Forest

def carry (pending : Option String) (node : NodeData) : NodeData :=
  match pending with
  | some combinator => prefixSelector combinator node
  | none => node

def gone (combinator selector : String) : Bool :=
  let rest := remaining combinator selector
  rest.isEmpty || rest == ['&']

def shrink (node : Node) (combinator selector : String) (children : Forest Node) : Forest Node :=
  if gone combinator selector then children
  else .cons { node with data := node.data.setSelector (.ofList (remaining combinator selector)) }
    children .nil

def fixed (rule : CombinatorRule) (pending : Option String) : Forest Node → Forest Node
  | .nil => .nil
  | .cons node children next =>
    let own : Node := { node with data := carry pending node.data }
    match rule.fault? own.data with
    | some (combinator, selector) =>
      shrink own combinator selector (rule.fixed (some combinator) children) ++ rule.fixed pending next
    | none => .cons own (rule.fixed none children) (rule.fixed pending next)

/-! ## One rule -/

def settle (rule : CombinatorRule) (node : Node) (children : Forest Node) : Forest Node :=
  match rule.fault? node.data with
  | some (combinator, selector) =>
    shrink node combinator selector (children.mapRoots (prefixSelector combinator))
  | none => .cons node children .nil

def settleAt (rule : CombinatorRule) (forest : Forest Node) (id : NodeId) : Forest Node :=
  match forest.find? id with
  | some (data, children) => replace id (rule.settle ⟨id, data⟩ children) forest
  | none => forest

variable {sheet : Sheet} {id : NodeId} {data : NodeData} {children : Forest Node}

theorem modifyBody (sheet : Sheet) (below : id ≠ Sheet.rootId) (change : NodeData → NodeData) :
    sheet.modify id change = { sheet with body := sheet.body.modify id change } := if_neg below

theorem modifiesBody (sheet : Sheet) (changed : List NodeId) (below : Sheet.rootId ∉ changed)
    (change : NodeData → NodeData) :
    changed.foldl (fun sheet child => sheet.modify child change) sheet =
      { sheet with body := changed.foldl (fun f child => f.modify child change) sheet.body } := by
  induction changed generalizing sheet with
  | nil => rfl
  | cons first rest ih =>
    rw [List.mem_cons, not_or] at below
    rw [List.foldl_cons, List.foldl_cons, modifyBody sheet (Ne.symm below.1), ih _ below.2]

theorem modifiesDistinct (distinct : sheet.Distinct) (changed : List NodeId)
    (change : NodeData → NodeData) :
    (changed.foldl (fun sheet child => sheet.modify child change) sheet).Distinct := by
  induction changed generalizing sheet with
  | nil => exact distinct
  | cons first rest ih => exact ih (distinct.modify first change)

theorem moveFirstBefore {child : Node} {inner rest : Forest Node} (distinct : sheet.Distinct)
    (found : sheet.body.find? id = some (data, .cons child inner rest)) :
    sheet.moveBefore? id child.id = some { sheet with
      body := replace id (.cons child inner (.cons ⟨id, data⟩ rest .nil)) sheet.body } := by
  obtain ⟨once, outside⟩ := findOnce distinct.once found
  have present := findIsSome.mp (Option.isSome_of_eq_some found)
  have first : child.id ∈ ids (.cons child inner rest) := by simp
  rw [idsCons, List.mem_cons, List.mem_append, not_or, not_or] at outside
  have childFound : sheet.find? child.id = some (child.data, inner) := by
    rw [Sheet.findBody sheet (distinct.ne ((findBelow found).2 _ first)),
      findInside distinct.once found first, Forest.find?, if_pos rfl]
  have apart : sheet.isBelow child.id id = false := by
    rw [Sheet.isBelow, Sheet.walk, Sheet.below, childFound]
    simp [outside.2.1]
  obtain ⟨parent, above⟩ : ∃ parent, sheet.parent? id = some parent := by
    rw [Sheet.parent?, if_neg (distinct.ne present)]
    exact Option.isSome_iff_exists.mp (parentIsSome.mpr present)
  rw [Sheet.moveBefore?, if_neg (by simp [outside.1, apart]), childFound, above]
  simp only [moveFirst distinct.once found]

theorem hoistAll (distinct : sheet.Distinct) (found : sheet.body.find? id = some (data, children)) :
    (children.roots.map Node.id).foldl
        (fun sheet child => (sheet.moveBefore? id child).getD sheet) sheet =
      { sheet with body := replace id (children ++ .cons ⟨id, data⟩ .nil .nil) sheet.body } := by
  induction children generalizing sheet with
  | nil =>
    rw [nilAppend, replaceSame distinct.once found]
    rfl
  | cons child inner rest _ ih =>
    obtain ⟨-, outside⟩ := findOnce distinct.once found
    rw [idsCons, List.mem_cons, List.mem_append, not_or, not_or] at outside
    have moved := moveFirstBefore distinct found
    have found' := findReplace distinct.once found (.cons child inner (.cons ⟨id, data⟩ rest .nil))
      (.inl rfl)
    rw [Forest.find?, if_neg (Ne.symm outside.1), findNone outside.2.1, Option.none_or,
      Forest.find?, if_pos rfl] at found'
    have behind : replace id (rest ++ .cons ⟨id, data⟩ .nil .nil)
        (.cons child inner (.cons ⟨id, data⟩ rest .nil)) =
          .cons child inner (rest ++ .cons ⟨id, data⟩ .nil .nil) := by
      rw [replace, if_neg (Ne.symm outside.1), replaceAbsent outside.2.1, replace, if_pos rfl, replace,
        appendNil]
    rw [roots, List.map_cons, List.foldl_cons, moved, Option.getD_some, ih (distinct.moveBefore moved) found']
    simp only [replaceTwice, behind, consAppend]

theorem dissolveReplace (distinct : sheet.Distinct)
    (found : sheet.body.find? id = some (data, children)) :
    dissolve sheet id (children.roots.map Node.id) =
      { sheet with body := replace id children sheet.body } := by
  have present := findIsSome.mp (Option.isSome_of_eq_some found)
  obtain ⟨-, outside⟩ := findOnce distinct.once found
  have found' := findReplace distinct.once found (children ++ .cons ⟨id, data⟩ .nil .nil) (.inl rfl)
  rw [findAppend, findNone outside, Option.none_or, Forest.find?, if_pos rfl] at found'
  have emptied : replace id .nil (children ++ .cons ⟨id, data⟩ .nil .nil) = children := by
    rw [replaceAppend, replaceAbsent outside, replace, if_pos rfl, replace, appendNil, appendNil]
  unfold dissolve
  dsimp only
  rw [hoistAll distinct found, Sheet.remove?, if_neg (distinct.ne present),
    Sheet.findBody _ (distinct.ne present), found']
  simp only [Option.map_some, Option.getD_some, eraseReplace, replaceTwice, emptied]

theorem relocateReplace (distinct : sheet.Distinct)
    (found : sheet.body.find? id = some (data, children)) (combinator selector : String) :
    relocate sheet id selector combinator = { sheet with
      body := replace id
        (shrink ⟨id, data⟩ combinator selector (children.mapRoots (prefixSelector combinator)))
        sheet.body } := by
  have below := distinct.ne (findIsSome.mp (Option.isSome_of_eq_some found))
  have kids : sheet.children id = children.roots.map Node.id := by
    rw [Sheet.children, Sheet.below, Sheet.findBody sheet below, found]
  have noRoot : Sheet.rootId ∉ children.roots.map Node.id := fun root =>
    distinct.rootOutside ((findBelow found).2 _ (rootsIds root))
  have moved := modifiesBody sheet (children.roots.map Node.id) noRoot (prefixSelector combinator)
  rw [modifyChildren distinct.once found] at moved
  have found' := findReplace distinct.once found
    (.cons ⟨id, data⟩ (children.mapRoots (prefixSelector combinator)) .nil) (.inl rfl)
  rw [Forest.find?, if_pos rfl] at found'
  have distinct' := modifiesDistinct distinct (children.roots.map Node.id) (prefixSelector combinator)
  rw [moved] at distinct'
  have rest (tree : Forest Node) :
      replace id tree (.cons ⟨id, data⟩ (children.mapRoots (prefixSelector combinator)) .nil) = tree := by
    rw [replace, if_pos rfl, replace, appendNil]
  unfold relocate shrink gone
  dsimp only
  rw [kids, moved]
  split
  · rw [← mapRootsRoots (prefixSelector combinator), dissolveReplace distinct' found']
    simp only [replaceTwice, rest]
  · rw [modifyBody _ below]
    simp only [modifyReplace distinct'.once found', replaceTwice, rest]

def fixOne (rule : CombinatorRule) (sheet : Sheet) (id : NodeId) : Sheet :=
  match (sheet.get? id).bind rule.fault? with
  | some (combinator, selector) => relocate sheet id selector combinator
  | none => sheet

theorem checkFix (rule : CombinatorRule) (sheet : Sheet) (id : NodeId) :
    rule.check .fix ⟨sheet, []⟩ id = ⟨rule.fixOne sheet id, []⟩ := by
  unfold check fixOne
  cases sheet.get? id with
  | none => rfl
  | some node =>
    simp only [Option.bind_some]
    cases rule.fault? node <;> rfl

theorem runFix (rule : CombinatorRule) (sheet : Sheet) :
    rule.run .fix sheet = ⟨sheet.rules.foldl rule.fixOne sheet, []⟩ :=
  List.foldl_hom (fun sheet => (⟨sheet, []⟩ : Outcome)) fun sheet id => rule.checkFix sheet id

theorem fixOneReplace (rule : CombinatorRule) (distinct : sheet.Distinct) (below : id ≠ Sheet.rootId) :
    rule.fixOne sheet id = { sheet with body := rule.settleAt sheet.body id } := by
  unfold fixOne settleAt
  rw [Sheet.get?, Sheet.findBody sheet below]
  cases found : sheet.body.find? id with
  | none => rfl
  | some node =>
    obtain ⟨data, children⟩ := node
    rw [Option.map_some, Option.bind_some]
    cases fault : rule.fault? data with
    | none => simp only [settle, fault, replaceSame distinct.once found]
    | some both =>
      obtain ⟨combinator, selector⟩ := both
      simp only [settle, fault]
      exact relocateReplace distinct found combinator selector

theorem shrinkIds (node : Node) (combinator selector : String) (children : Forest Node) :
    (shrink node combinator selector children).ids.Sublist (node.id :: children.ids) := by
  unfold shrink
  split
  · exact List.sublist_cons_self _ _
  · simp

theorem settleIds (rule : CombinatorRule) (node : Node) (children : Forest Node) :
    (rule.settle node children).ids.Sublist (node.id :: children.ids) := by
  unfold settle
  split
  · exact mapRootsIds (prefixSelector _) children ▸ shrinkIds node _ _ _
  · simp

theorem settleAtIds (rule : CombinatorRule) {f : Forest Node} (once : f.ids.Nodup) (id : NodeId) :
    (rule.settleAt f id).ids.Sublist f.ids := by
  unfold settleAt
  split
  · next data children found => exact replaceSublist once found (rule.settleIds ⟨id, data⟩ children)
  · exact List.Sublist.refl _

/-! ## All rules -/

theorem fixAll (rule : CombinatorRule) (distinct : sheet.Distinct) (rules : List NodeId)
    (below : Sheet.rootId ∉ rules) :
    rules.foldl rule.fixOne sheet = { sheet with body := rules.foldl rule.settleAt sheet.body } := by
  induction rules generalizing sheet with
  | nil => rfl
  | cons first rest ih =>
    rw [List.mem_cons, not_or] at below
    have fewer := rule.settleAtIds distinct.once first
    have distinct' : Sheet.Distinct { sheet with body := rule.settleAt sheet.body first } :=
      distinct.kept (fewer.nodup distinct.once) fun id inside => fewer.subset inside
    rw [List.foldl_cons, fixOneReplace rule distinct (Ne.symm below.1), ih distinct' below.2]
    rfl

variable {rule : CombinatorRule} {f g : Forest Node}

theorem settleAtLeft (absent : id ∉ g.ids) :
    rule.settleAt (f ++ g) id = rule.settleAt f id ++ g := by
  unfold settleAt
  rw [findAppend, findNone absent, Option.or_none]
  split
  · rw [replaceAppend, replaceAbsent absent]
  · rfl

theorem settleAtRight (absent : id ∉ f.ids) :
    rule.settleAt (f ++ g) id = f ++ rule.settleAt g id := by
  unfold settleAt
  rw [findAppend, findNone absent, Option.none_or]
  split
  · rw [replaceAppend, replaceAbsent absent]
  · rfl

theorem settleAtInside {node : Node} {next : Forest Node} (other : node.id ≠ id)
    (absent : id ∉ next.ids) :
    rule.settleAt (.cons node f next) id = .cons node (rule.settleAt f id) next := by
  unfold settleAt
  rw [Forest.find?, if_neg other, findNone absent, Option.or_none]
  split
  · rw [replace, if_neg other, replaceAbsent absent]
  · rfl

theorem settleAtTop {node : Node} {children next : Forest Node} (absent : node.id ∉ next.ids) :
    rule.settleAt (.cons node children next) node.id = rule.settle node children ++ next := by
  unfold settleAt
  rw [Forest.find?, if_pos rfl]
  simp only [replace, if_pos, replaceAbsent absent]

theorem settlesWithin (whole : Forest Node → Forest Node) {ids : List NodeId}
    (within : ∀ id ∈ ids, ∀ part, rule.settleAt (whole part) id = whole (rule.settleAt part id))
    (part : Forest Node) :
    ids.foldl rule.settleAt (whole part) = whole (ids.foldl rule.settleAt part) := by
  induction ids generalizing part with
  | nil => rfl
  | cons first rest ih =>
    obtain ⟨here, others⟩ := List.forall_mem_cons.mp within
    rw [List.foldl_cons, List.foldl_cons, here, ih others]

def ruleIds (f : Forest Node) : List NodeId :=
  (f.labels.filter fun node => node.data.isRule).map Node.id

theorem ruleIdsCons (node : Node) (children next : Forest Node) :
    ruleIds (.cons node children next) =
      (if node.data.isRule then [node.id] else []) ++ (ruleIds children ++ ruleIds next) := by
  unfold ruleIds
  rw [labels, List.filter_cons]
  split <;> simp

theorem ruleIdsIds {f : Forest Node} : ∀ id ∈ ruleIds f, id ∈ f.ids := by
  intro id inside
  obtain ⟨node, kept, rfl⟩ := List.mem_map.mp inside
  exact labelsIds (List.mem_filter.mp kept).1

theorem fixedIds (rule : CombinatorRule) (pending : Option String) (f : Forest Node) :
    (rule.fixed pending f).ids.Sublist f.ids := by
  induction f generalizing pending with
  | nil => exact List.Sublist.refl _
  | cons node children next ihc ihn =>
    rw [fixed]
    dsimp only
    split
    · next combinator selector _ =>
      rw [idsAppend, idsCons, ← List.cons_append]
      exact ((shrinkIds _ combinator selector _).trans ((ihc _).cons_cons _)).append (ihn pending)
    · rw [idsCons, idsCons]
      exact ((ihc none).append (ihn pending)).cons_cons _

theorem faultRule {data : NodeData} (other : data.isRule = false) : rule.fault? data = none := by
  unfold NodeData.isRule at other
  unfold fault? NodeData.selector?
  split at other
  · cases other
  · rfl

theorem setSelectorRule (selector : String) (data : NodeData) :
    (data.setSelector selector).isRule = data.isRule := by
  unfold NodeData.setSelector
  split
  · next kind => simp only [NodeData.isRule, kind]
  · rfl

theorem carryRule (pending : Option String) (data : NodeData) :
    (carry pending data).isRule = data.isRule := by
  unfold carry prefixSelector
  split
  · split
    · exact setSelectorRule _ data
    · rfl
  · rfl

theorem carryNone (f : Forest Node) : f.mapRoots (carry none) = f := by
  induction f with
  | nil => rfl
  | cons node children next _ ih => rw [mapRoots, ih]; rfl

theorem shrinkWithin {node : Node} (other : node.id ≠ id) (combinator selector : String)
    (part : Forest Node) :
    rule.settleAt (shrink node combinator selector part) id =
      shrink node combinator selector (rule.settleAt part id) := by
  unfold shrink
  split
  · rfl
  · exact settleAtInside other (List.not_mem_nil)

theorem settlesFixed (rule : CombinatorRule) (once : f.ids.Nodup) (pending : Option String) :
    (ruleIds f).foldl rule.settleAt (f.mapRoots (carry pending)) = rule.fixed pending f := by
  -- induction on the forest; the children and the trees behind are settled each for themselves
  induction f generalizing pending with
  | nil => rfl
  | cons node children next ihc ihn =>
    obtain ⟨topSub, topNext, subOnce, nextOnce, apart⟩ := distinctCons once
    generalize hown : ({ node with data := carry pending node.data } : Node) = own
    have ownId : own.id = node.id := by rw [← hown]
    have ownData : carry pending node.data = own.data := by rw [← hown]
    have away : ∀ id ∈ ruleIds children, own.id ≠ id ∧ id ∉ (next.mapRoots (carry pending)).ids := by
      intro id inside
      rw [mapRootsIds, ownId]
      exact ⟨fun same => topSub (same ▸ ruleIdsIds _ inside), apart id (ruleIdsIds _ inside)⟩
    have behind (tree : Forest Node) (fewer : tree.ids.Sublist (own.id :: children.ids)) :
        (ruleIds next).foldl rule.settleAt (tree ++ next.mapRoots (carry pending)) =
          tree ++ rule.fixed pending next := by
      rw [settlesWithin (tree ++ ·), ihn nextOnce]
      intro id inside part
      refine settleAtRight fun both => ?_
      rcases List.mem_cons.mp (fewer.subset both) with rfl | below
      · exact topNext (ownId ▸ ruleIdsIds _ inside)
      · exact apart id below (ruleIdsIds _ inside)
    have isRule : own.data.isRule = node.data.isRule := by rw [← ownData, carryRule]
    rw [mapRoots, hown, ruleIdsCons, List.foldl_append, List.foldl_append, fixed]
    dsimp only
    rw [hown, ownData]
    have first : (if node.data.isRule then [node.id] else []).foldl rule.settleAt
        (.cons own children (next.mapRoots (carry pending))) =
          rule.settle own children ++ next.mapRoots (carry pending) := by
      rw [← isRule, ← ownId]
      split
      · exact settleAtTop (by rw [mapRootsIds, ownId]; exact topNext)
      · next other =>
        rw [settle, faultRule (Bool.not_eq_true _ ▸ other)]
        rfl
    rw [first, settle]
    split
    · next combinator selector fault =>
      have inside : (ruleIds children).foldl rule.settleAt
          (shrink own combinator selector (children.mapRoots (prefixSelector combinator)) ++
            next.mapRoots (carry pending)) =
          shrink own combinator selector (rule.fixed (some combinator) children) ++
            next.mapRoots (carry pending) := by
        rw [settlesWithin (shrink own combinator selector · ++ next.mapRoots (carry pending)),
          ← ihc subOnce]
        · rfl
        · intro id mem part
          rw [settleAtLeft (away id mem).2, shrinkWithin (away id mem).1]
      rw [inside, behind]
      exact (shrinkIds own combinator selector _).trans ((rule.fixedIds _ _).cons_cons _)
    · next fault =>
      have inside : (ruleIds children).foldl rule.settleAt
          (.cons own children (next.mapRoots (carry pending))) =
            .cons own (rule.fixed none children) .nil ++ next.mapRoots (carry pending) := by
        rw [settlesWithin (.cons own · (next.mapRoots (carry pending))), ← ihc subOnce, carryNone]
        · rfl
        · intro id mem part
          exact settleAtInside (away id mem).1 (away id mem).2
      rw [consAppend, nilAppend, inside, behind]
      · rfl
      · rw [idsCons, idsNil, List.append_nil]
        exact (rule.fixedIds _ _).cons_cons _

theorem runFixed (rule : CombinatorRule) (distinct : sheet.Distinct) :
    rule.run .fix sheet = ⟨{ sheet with body := rule.fixed none sheet.body }, []⟩ := by
  have below : Sheet.rootId ∉ sheet.rules := fun inside => distinct.rootOutside (ruleIdsIds _ inside)
  have all := settlesFixed rule distinct.once none
  rw [carryNone] at all
  rw [runFix, fixAll rule distinct sheet.rules below, ← all]
  rfl

end SheetLint.CombinatorRule
