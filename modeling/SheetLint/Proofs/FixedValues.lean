import Mathlib.Data.List.Nodup
import SheetLint.Proofs.DirectivePlacement
import SheetLint.Proofs.MatchedRanges
import SheetLint.Sheet.Print

/-! What fixing magic values does to a sheet. The run changes values and adds directives in turn, but since
the two commute, its outcome is that of two passes: first every declaration is rewritten by itself, by one
matcher after the other, then all the modules that were asked for are imported, in the same order. -/
namespace SheetLint

/-! ## One declaration by itself -/

namespace Matcher

def fires (matcher : Matcher) (prop value : String) : Bool :=
  matcher.appliesTo prop && matcher.isFixable && !(matcher.execute value).isEmpty

def rewrite (matcher : Matcher) (prop value : String) : String :=
  if matcher.fires prop value then (matcher.fix value).toOption.getD value else value

def rewriteAll (matchers : List Matcher) (prop value : String) : String :=
  matchers.foldl (fun value matcher => matcher.rewrite prop value) value

def requirements (prop : String) : List Matcher → String → List Uses
  | [], _ => []
  | matcher :: rest, value =>
    (if matcher.fires prop value then [matcher.uses] else []) ++
      requirements prop rest (matcher.rewrite prop value)

end Matcher

namespace MagicRule
open ImportTable Forest

def finding (rule : MagicRule) (node : NodeData) (prop value : String) (matcher : Matcher) : List Violation :=
  if matcher.appliesTo prop && !matcher.isFixable then
    ((matcher.execute value).head?.map fun first => rule.violation node (shown value first)).toList
  else []

def findings (rule : MagicRule) (node : NodeData) (prop : String) : List Matcher → String → List Violation
  | [], _ => []
  | matcher :: rest, value =>
    rule.finding node prop value matcher ++ findings rule node prop rest (matcher.rewrite prop value)

def rewritten (rule : MagicRule) (node : NodeData) : NodeData :=
  match node.parts? with
  | some (prop, value) => node.setValue (Matcher.rewriteAll rule.matchers prop value)
  | none => node

def rewriteNode (rule : MagicRule) (node : Node) : Node := { node with data := rule.rewritten node.data }

def reports (rule : MagicRule) (node : Node) : List Violation :=
  match node.data.parts? with
  | some (prop, value) => rule.findings node.data prop rule.matchers value
  | none => []

def asked (rule : MagicRule) (node : Node) : List Uses :=
  match node.data.parts? with
  | some (prop, value) => Matcher.requirements prop rule.matchers value
  | none => []

/-! ## One step of a run -/

def State.reached (root : NodeData) (uses : Uses) (slot : Slot) (asked : List Uses)
    (violations : List Violation) : State :=
  ⟨(slot.inserts (demanded uses asked)).sheet root, ⟨record uses (demanded uses asked), slot.anchor⟩,
    violations⟩

variable {root : NodeData} {uses : Uses} {slot : Slot}

theorem insertsLabel {node : Node} (inside : node ∈ (slot.sheet root).body.labels) (entries : Uses) :
    ∃ own ∈ ((slot.inserts entries).sheet root).body.labels,
      own.id = node.id ∧ own.data.kind = node.data.kind ∧ own.data.span = node.data.span := by
  obtain ⟨added, front, -, -, back⟩ := slot.insertsParts entries
  simp only [Slot.sheet, labelsAppend, List.mem_append, front] at inside ⊢
  rcases inside with before | behind
  · exact ⟨node, .inl (.inl before), rfl, rfl, rfl⟩
  rcases back with same | ⟨-, moved⟩
  · exact ⟨node, .inr (by rwa [same]), rfl, rfl, rfl⟩
  · rw [moved]
    cases behindNodes : slot.back with
    | nil => rw [behindNodes] at behind; cases behind
    | cons first children next =>
      rw [behindNodes, labels] at behind
      rcases List.mem_cons.mp behind with rfl | later
      · refine ⟨{ node with data := ontoNewLine node.data }, .inr List.mem_cons_self, rfl, ?_, ?_⟩
        · rw [ontoNewLine]
          split <;> rfl
        · rw [ontoNewLine]
          split <;> rfl
      · exact ⟨node, .inr (List.mem_cons_of_mem _ later), rfl, rfl, rfl⟩

theorem insertsGet (distinct : (slot.sheet root).Distinct) {node : Node}
    (inside : node ∈ (slot.sheet root).body.labels) (entries : Uses) :
    ∃ own, ((slot.inserts entries).sheet root).get? node.id = some own ∧ own.parts? = node.data.parts? ∧
      own.span = node.data.span := by
  obtain ⟨own, found, same, kind, span⟩ := insertsLabel inside entries
  have present := labelsIds found
  have still := Slot.insertsDistinct distinct entries
  refine ⟨own.data, ?_, by rw [NodeData.parts?, NodeData.parts?, kind], span⟩
  rw [Sheet.get?, ← same, Sheet.findBody _ (still.ne present)]
  exact labelFound still.once found

theorem fixSome (matcher : Matcher) (value : String) :
    ∃ fixed, matcher.fix value = .ok fixed := by
  obtain ⟨fixed, ok, -⟩ := matcher.executeReplaced value .own fun part => (matcher.replace part).getD part
  exact ⟨fixed, ok⟩

/-! ## Values -/

theorem labelOnce {f : Forest Node} (once : f.ids.Nodup) {a b : Node} (left : a ∈ f.labels)
    (right : b ∈ f.labels) (same : a.id = b.id) : a = b :=
  List.inj_on_of_nodup_map once left right same

theorem setValueParts {node : NodeData} {prop value : String} (parts : node.parts? = some (prop, value))
    (other : String) : (node.setValue other).parts? = some (prop, other) := by
  obtain ⟨kind, raws, span⟩ := node
  cases kind <;> simp_all [NodeData.parts?, NodeData.setValue]

theorem setValueSpan (node : NodeData) (value : String) : (node.setValue value).span = node.span := by
  unfold NodeData.setValue
  split <;> rfl

theorem setValueOwn {node : NodeData} {prop value : String} (parts : node.parts? = some (prop, value)) :
    node.setValue value = node := by
  obtain ⟨kind, raws, span⟩ := node
  cases kind <;> simp_all [NodeData.parts?, NodeData.setValue]

theorem setValueTwice (node : NodeData) (first second : String) :
    (node.setValue first).setValue second = node.setValue second := by
  obtain ⟨kind, raws, span⟩ := node
  cases kind <;> rfl

theorem mapAgrees {f : Forest Node} {change other : Node → Node}
    (agree : ∀ node ∈ f.labels, change node = other node) : f.map change = f.map other := by
  induction f with
  | nil => rfl
  | cons node children next ihc ihn =>
    simp only [labels, List.forall_mem_cons, List.forall_mem_append] at agree
    obtain ⟨own, inside, behind⟩ := agree
    rw [Forest.map, Forest.map, own, ihc inside, ihn behind]

theorem modifyAgrees {f : Forest Node} {id : NodeId} {change other : NodeData → NodeData}
    (agree : ∀ node ∈ f.labels, node.id = id → change node.data = other node.data) :
    f.modify id change = f.modify id other := by
  refine mapAgrees fun node inside => ?_
  split
  · next same => rw [agree node inside same]
  · rfl

theorem modifyTwice (f : Forest Node) (id : NodeId) (first second : String) :
    (f.modify id (·.setValue first)).modify id (·.setValue second) = f.modify id (·.setValue second) := by
  rw [Forest.modify, Forest.modify, mapMap, Forest.modify]
  congr 1
  funext node
  by_cases same : node.id = id
  · simp [same, setValueTwice]
  · simp [same]

section Labels
variable {node : Node} {prop value : String}

theorem slotAgrees (distinct : (slot.sheet root).Distinct) (inside : node ∈ (slot.sheet root).body.labels)
    {change other : NodeData → NodeData} (agree : change node.data = other node.data) :
    slot.modify node.id change = slot.modify node.id other := by
  have one (own : Node) (listed : own ∈ (slot.sheet root).body.labels) (same : own.id = node.id) :
      change own.data = other own.data := by
    rw [labelOnce distinct.once listed inside same]
    exact agree
  simp only [Slot.sheet, labelsAppend, List.mem_append] at one
  rw [Slot.modify, Slot.modify, modifyAgrees fun own listed => one own (.inl listed),
    modifyAgrees fun own listed => one own (.inr listed)]

theorem slotStays (distinct : (slot.sheet root).Distinct) (inside : node ∈ (slot.sheet root).body.labels)
    (parts : node.data.parts? = some (prop, value)) : slot.modify node.id (·.setValue value) = slot := by
  have none (f : Forest Node) : f.modify node.id (fun data => data) = f :=
    mapAbsent fun own _ => by split <;> rfl
  calc slot.modify node.id (·.setValue value)
    _ = slot.modify node.id (fun data => data) := slotAgrees distinct inside (setValueOwn parts)
    _ = slot := by rw [Slot.modify, none, none]

theorem slotTwice (slot : Slot) (id : NodeId) (first second : String) :
    (slot.modify id (·.setValue first)).modify id (·.setValue second) = slot.modify id (·.setValue second) := by
  simp only [Slot.modify, modifyTwice]

theorem slotLabels (slot : Slot) (id : NodeId) (change : NodeData → NodeData) :
    ((slot.modify id change).sheet root).body.labels = (slot.sheet root).body.labels.map fun node =>
      if node.id = id then { node with data := change node.data } else node := by
  simp only [Slot.sheet, Slot.modify, labelsAppend, Forest.modify, labelsMap, List.map_append]

theorem slotDistinct (distinct : (slot.sheet root).Distinct) (id : NodeId) (change : NodeData → NodeData) :
    ((slot.modify id change).sheet root).Distinct := by
  have ids : ((slot.modify id change).sheet root).body.ids = (slot.sheet root).body.ids := by
    simp only [Slot.sheet, Slot.modify, idsAppend, modifyIds]
  exact distinct.kept (ids ▸ distinct.once) fun _ listed => ids ▸ listed

end Labels

/-! ## One step of a run -/

variable {rule : MagicRule} {node : Node} {prop value : String} {asked : List Uses}
variable {violations : List Violation}

theorem replaceReached (distinct : (slot.sheet root).Distinct) (container : root.isContainer = true)
    (inside : node ∈ (slot.sheet root).body.labels) (fixed : String) (required : Uses) :
    (State.reached root uses slot asked violations).replace node.id fixed required =
      State.reached root uses (slot.modify node.id (·.setValue fixed)) (asked ++ [required]) violations := by
  have present := labelsIds inside
  have still := Slot.insertsDistinct (slotDistinct distinct node.id (·.setValue fixed)) (demanded uses asked)
  have placed := ensurePlaced still container (record uses (demanded uses asked)) required
  rw [Slot.insertsAnchor, Slot.modifyAnchor, ← Slot.insertsSetValue (distinct.given _ present).2,
    ← Slot.modifySheet root (distinct.ne present)] at placed
  simp only [State.replace, State.reached, placed, Slot.modifyAnchor, demandedAppend, demanded,
    List.append_nil, recordAppend, Slot.insertsAppend, Slot.insertsSetValue (distinct.given _ present).2]

theorem checkReached (distinct : (slot.sheet root).Distinct) (container : root.isContainer = true)
    (inside : node ∈ (slot.sheet root).body.labels) (parts : node.data.parts? = some (prop, value))
    (matcher : Matcher) :
    rule.check .fix node.id (State.reached root uses slot asked violations) matcher =
      State.reached root uses (slot.modify node.id (·.setValue (matcher.rewrite prop value)))
        (asked ++ if matcher.fires prop value then [matcher.uses] else [])
        (violations ++ rule.finding node.data prop value matcher) := by
  obtain ⟨own, found, kind, span⟩ := insertsGet distinct inside (demanded uses asked)
  have read : (State.reached root uses slot asked violations).sheet.get? node.id = some own := found
  have idle : matcher.fires prop value = false →
      State.reached root uses (slot.modify node.id (·.setValue (matcher.rewrite prop value)))
        (asked ++ if matcher.fires prop value then [matcher.uses] else []) =
      State.reached root uses slot asked := by
    intro off
    rw [Matcher.rewrite, off]
    simp [slotStays distinct inside parts]
  simp only [check, read, kind, parts]
  by_cases applies : matcher.appliesTo prop = true
  · rw [if_pos applies]
    cases ranges : matcher.execute value with
    | nil =>
      rw [idle (by simp [Matcher.fires, ranges])]
      simp [finding, ranges]
    | cons first others =>
      by_cases fixable : matcher.isFixable = true
      · obtain ⟨fixed, ok⟩ := fixSome matcher value
        have fires : matcher.fires prop value = true := by simp [Matcher.fires, applies, fixable, ranges]
        have rewrites : matcher.rewrite prop value = fixed := by
          rw [Matcher.rewrite, if_pos fires, ok]
          rfl
        simp only [fixable, ok, rewrites, fires, decide_true, Bool.and_self, if_true]
        rw [replaceReached distinct container inside]
        simp [finding, fixable]
      · rw [idle (by simp [Matcher.fires, fixable])]
        simp only [fixable, Bool.and_false, Bool.false_eq_true, if_false, finding, applies, Bool.not_false,
          Bool.and_true, if_true, ranges, List.head?_cons, Option.map_some, Option.toList_some]
        simp only [State.reached, violation, span]
  · rw [if_neg applies, idle (by simp [Matcher.fires, applies])]
    simp [finding, applies]

theorem findingsSpan {node other : NodeData} (span : node.span = other.span) (matchers : List Matcher)
    (prop value : String) :
    rule.findings node prop matchers value = rule.findings other prop matchers value := by
  induction matchers generalizing value with
  | nil => rfl
  | cons matcher rest ih => simp only [findings, finding, violation, span, ih]

theorem checksReached (distinct : (slot.sheet root).Distinct) (container : root.isContainer = true)
    (inside : node ∈ (slot.sheet root).body.labels) (parts : node.data.parts? = some (prop, value))
    (matchers : List Matcher) :
    matchers.foldl (rule.check .fix node.id) (State.reached root uses slot asked violations) =
      State.reached root uses (slot.modify node.id (·.setValue (Matcher.rewriteAll matchers prop value)))
        (asked ++ Matcher.requirements prop matchers value)
        (violations ++ rule.findings node.data prop matchers value) := by
  -- induction on the matchers, each of which sees the value as the earlier ones have left it
  induction matchers generalizing slot node value asked violations with
  | nil => simp [Matcher.rewriteAll, Matcher.requirements, findings, slotStays distinct inside parts]
  | cons matcher rest ih =>
    rw [List.foldl_cons, checkReached distinct container inside parts]
    have changed : ⟨node.id, node.data.setValue (matcher.rewrite prop value)⟩ ∈
        ((slot.modify node.id (·.setValue (matcher.rewrite prop value))).sheet root).body.labels := by
      rw [slotLabels]
      exact List.mem_map.mpr ⟨node, inside, by simp⟩
    rw [@ih _ ⟨node.id, node.data.setValue (matcher.rewrite prop value)⟩ _ _ _
      (slotDistinct distinct _ _) changed (setValueParts parts _), slotTwice,
      findingsSpan (setValueSpan node.data _)]
    simp only [Matcher.rewriteAll, List.foldl_cons, Matcher.requirements, findings, List.append_assoc]

theorem checkAllReached (distinct : (slot.sheet root).Distinct) (container : root.isContainer = true)
    (inside : node ∈ (slot.sheet root).body.labels) (declares : node.data.isDeclaration = true) :
    rule.checkAll .fix (State.reached root uses slot asked violations) node.id =
      State.reached root uses (slot.modify node.id rule.rewritten) (asked ++ rule.asked node)
        (violations ++ rule.reports node) := by
  obtain ⟨prop, value, parts⟩ : ∃ prop value, node.data.parts? = some (prop, value) := by
    unfold NodeData.isDeclaration at declares
    unfold NodeData.parts?
    split at declares
    · next prop value _ _ => exact ⟨prop, value, rfl⟩
    · cases declares
  have same : slot.modify node.id rule.rewritten =
      slot.modify node.id (·.setValue (Matcher.rewriteAll rule.matchers prop value)) :=
    slotAgrees distinct inside (by simp only [rewritten, parts])
  rw [checkAll, checksReached distinct container inside parts, same]
  simp only [MagicRule.asked, reports, parts]

/-! ## Whole runs -/

theorem declarationsReached {nodes : List Node} (distinct : (slot.sheet root).Distinct)
    (container : root.isContainer = true) (inside : ∀ node ∈ nodes, node ∈ (slot.sheet root).body.labels)
    (declare : ∀ node ∈ nodes, node.data.isDeclaration = true) (once : (nodes.map Node.id).Nodup) :
    (nodes.map Node.id).foldl (rule.checkAll .fix) (State.reached root uses slot asked violations) =
      State.reached root uses ((nodes.map Node.id).foldl (fun slot id => slot.modify id rule.rewritten) slot)
        (asked ++ nodes.flatMap rule.asked) (violations ++ nodes.flatMap rule.reports) := by
  induction nodes generalizing slot asked violations with
  | nil => simp
  | cons node rest ih =>
    obtain ⟨own, others⟩ := List.forall_mem_cons.mp inside
    obtain ⟨declares, declare⟩ := List.forall_mem_cons.mp declare
    rw [List.map_cons, List.nodup_cons] at once
    have still : ∀ other ∈ rest, other ∈ ((slot.modify node.id rule.rewritten).sheet root).body.labels := by
      intro other listed
      rw [slotLabels]
      refine List.mem_map.mpr ⟨other, others other listed, if_neg fun same => once.1 ?_⟩
      exact same ▸ List.mem_map_of_mem listed
    rw [List.map_cons, List.foldl_cons, checkAllReached distinct container own declares,
      ih (slotDistinct distinct _ _) still declare once.2]
    simp only [List.foldl_cons, List.flatMap_cons, List.append_assoc]

theorem partsOther {node : NodeData} (other : node.isDeclaration = false) : node.parts? = none := by
  obtain ⟨kind, raws, span⟩ := node
  cases kind with
  | declaration => cases other
  | root | rule _ | atRule _ _ _ | comment _ _ => rfl

theorem flatMapDeclarations {α : Type} {f : Node → List α}
    (none : ∀ node : Node, node.data.parts? = none → f node = []) (nodes : List Node) :
    (nodes.filter fun node => node.data.isDeclaration).flatMap f = nodes.flatMap f := by
  induction nodes with
  | nil => rfl
  | cons node rest ih =>
    rw [List.filter_cons, List.flatMap_cons, ← ih]
    split
    · rw [List.flatMap_cons]
    · next other => rw [none node (partsOther (by simpa using other)), List.nil_append]

theorem modifiesSlot (ids : List NodeId) (change : NodeData → NodeData) (slot : Slot) :
    ids.foldl (fun slot id => slot.modify id change) slot =
      ⟨ids.foldl (fun f id => f.modify id change) slot.front,
        ids.foldl (fun f id => f.modify id change) slot.back, slot.fresh⟩ := by
  induction ids generalizing slot with
  | nil => rfl
  | cons id rest ih => exact ih (slot.modify id change)

def rewriteSlot (rule : MagicRule) (slot : Slot) : Slot :=
  ⟨slot.front.map rule.rewriteNode, slot.back.map rule.rewriteNode, slot.fresh⟩

theorem rewritesSlot (distinct : (slot.sheet root).Distinct) :
    (slot.sheet root).declarations.foldl (fun slot id => slot.modify id rule.rewritten) slot =
      rule.rewriteSlot slot := by
  have once : (slot.sheet root).declarations.Nodup := distinct.once.sublist (List.filter_sublist.map Node.id)
  have all (node : Node) (inside : node ∈ slot.front.labels ∨ node ∈ slot.back.labels) :
      (if node.id ∈ (slot.sheet root).declarations then { node with data := rule.rewritten node.data }
        else node) = rule.rewriteNode node := by
    split
    · rfl
    · next other =>
      have plain : node.data.isDeclaration = false := by
        by_contra declares
        refine other (List.mem_map_of_mem (List.mem_filter.mpr ⟨?_, by simpa using declares⟩))
        rwa [Slot.sheet, labelsAppend, List.mem_append]
      rw [rewriteNode, rewritten, partsOther plain]
  rw [modifiesSlot, modifyAll _ once, modifyAll _ once, rewriteSlot,
    mapAgrees fun node inside => all node (.inl inside), mapAgrees fun node inside => all node (.inr inside)]

theorem runFolds (rule : MagicRule) (mode : Mode) (sheet : Sheet) :
    rule.run mode sheet =
      ⟨(sheet.declarations.foldl (rule.checkAll mode) ⟨sheet, .scan sheet, []⟩).sheet,
        (sheet.declarations.foldl (rule.checkAll mode) ⟨sheet, .scan sheet, []⟩).violations⟩ := by
  rw [run]
  split
  · next none =>
    have still (state : State) (ids : List NodeId) : ids.foldl (rule.checkAll mode) state = state := by
      induction ids with
      | nil => rfl
      | cons id rest ih =>
        rw [List.foldl_cons, checkAll, List.isEmpty_iff.mp none]
        exact ih
    rw [still]
  · rfl

theorem runInserts (distinct : (slot.sheet root).Distinct) (container : root.isContainer = true)
    (scanned : scan (slot.sheet root) = ⟨uses, slot.anchor⟩) (rule : MagicRule) :
    rule.run .fix (slot.sheet root) =
      ⟨((rule.rewriteSlot slot).inserts
          (demanded uses ((slot.sheet root).body.labels.flatMap rule.asked))).sheet root,
        (slot.sheet root).body.labels.flatMap rule.reports⟩ := by
  have start : (⟨slot.sheet root, scan (slot.sheet root), []⟩ : State) =
      State.reached root uses slot [] [] := by
    rw [scanned]
    rfl
  have listed : ∀ node ∈ (slot.sheet root).body.labels.filter fun node => node.data.isDeclaration,
      node ∈ (slot.sheet root).body.labels ∧ node.data.isDeclaration = true :=
    fun _ inside => List.mem_filter.mp inside
  have once : (slot.sheet root).declarations.Nodup := distinct.once.sublist (List.filter_sublist.map Node.id)
  have ran := @declarationsReached root uses slot rule [] [] _ distinct container
    (fun node inside => (listed node inside).1) (fun node inside => (listed node inside).2) once
  rw [← Sheet.declarations, rewritesSlot distinct,
    flatMapDeclarations (fun node none => by simp only [MagicRule.asked, none]),
    flatMapDeclarations (fun node none => by simp only [reports, none])] at ran
  rw [runFolds, start, ran]
  rfl

theorem runParts {sheet : Sheet} (distinct : sheet.Distinct) (container : sheet.root.isContainer = true)
    (rule : MagicRule) :
    ∃ front back behind added, sheet.body.map rule.rewriteNode = front ++ back ∧
      (rule.run .fix sheet).violations = sheet.body.labels.flatMap rule.reports ∧
      (rule.run .fix sheet).sheet.root = sheet.root ∧
      (rule.run .fix sheet).sheet.body = front ++ (leaves added ++ behind) ∧
      added.map Node.id = List.range' sheet.fresh added.length ∧
      added.map (fun node => node.data.withBefore "") =
        (demanded (scan sheet).uses (sheet.body.labels.flatMap rule.asked)).map
          (fun entry => directive entry.1 entry.2) ∧
      (behind = back ∨ front = .nil ∧ ∃ before, behind = back.mapFirst (·.withBefore before)) := by
  obtain ⟨slot, parts, scanned, -, -⟩ := scanSlot sheet
  have ran := runInserts (parts ▸ distinct) container (parts ▸ scanned) rule
  rw [← parts] at ran
  have uses : (scan sheet).uses = bindings sheet.body.roots := by rw [scanned]
  have whole : sheet.body = slot.front ++ slot.back := congrArg Sheet.body parts
  have fresh : sheet.fresh = slot.fresh := congrArg Sheet.fresh parts
  rw [ran, uses]
  generalize demanded (bindings sheet.body.roots) (sheet.body.labels.flatMap rule.asked) = entries
  obtain ⟨behind, added, body, ids, data, back⟩ := (rule.rewriteSlot slot).insertsBody entries
  refine ⟨(rule.rewriteSlot slot).front, (rule.rewriteSlot slot).back, behind, added, ?_, rfl, rfl, body,
    fresh ▸ ids, data, back⟩
  rw [whole, mapAppend]
  rfl

theorem fixRunsByDeclaration (rule : MagicRule) {source : String} {sheet : Sheet}
    (ok : Sheet.parse source = .ok sheet) :
    (rule.run .fix sheet).violations = sheet.body.labels.flatMap rule.reports ∧
    (rule.run .fix sheet).sheet.root = sheet.root ∧
    (∃ front back behind added, sheet.body.map rule.rewriteNode = front ++ back ∧
      (rule.run .fix sheet).sheet.body = front ++ (leaves added ++ behind) ∧
      (∀ node ∈ added, isUse node = true ∧ sheet.fresh ≤ node.id) ∧
      (behind = back ∨ front = .nil ∧ ∃ before, behind = back.mapFirst (·.withBefore before))) ∧
    ∀ (matcher : Matcher) (value : String), ∃ fixed, matcher.fix value = .ok fixed ∧
      Spliced (fun part => ((matcher.replace (.ofList part)).getD (.ofList part)).toList) 0 value.toList
        (matcher.execute value) fixed.toList := by
  obtain ⟨-, after, -, -, root⟩ := Sheet.parseExact.mp ok
  have container : sheet.root.isContainer = true := by rw [root]; rfl
  obtain ⟨front, back, behind, added, whole, violations, kept, body, ids, data, moved⟩ :=
    runParts (Sheet.parseDistinct ok) container rule
  refine ⟨violations, kept, ⟨front, back, behind, added, whole, body, fun node listed => ⟨?_, ?_⟩, moved⟩,
    fun matcher value => matcher.executeReplaced value .own fun part => (matcher.replace part).getD part⟩
  · have shown := List.mem_map_of_mem (f := fun node => node.data.withBefore "") listed
    rw [data] at shown
    obtain ⟨entry, -, same⟩ := List.mem_map.mp shown
    have kind : node.data.kind = (directive entry.1 entry.2).kind := (congrArg NodeData.kind same).symm
    rw [isUse, NodeData.isAtRuleNamed, kind]
    rfl
  · have listed := List.mem_map_of_mem (f := Node.id) listed
    rw [ids] at listed
    exact (List.mem_range'_1.mp listed).1

def paletteRule : MagicRule :=
  ⟨[⟨"red", .word, none, some "p.rot", [("p", "lib/palette")]⟩, ⟨"rot", .word, none, none, []⟩,
    ⟨"blue", .word, none, some "p.blau", [("p", "lib/palette"), ("q", "x")]⟩], .error⟩

def paletteSource : String := " a \x7b b: red blue; c: Blue !important \x7d"

def paletteText : String :=
  "@use 'lib/palette' as p;\n@use 'x' as q;\na \x7b b: p.rot p.blau; c: p.blau !important \x7d"

theorem fixRunsByDeclarationInPalette :
    ∃ sheet, Sheet.parse paletteSource = .ok sheet ∧
      (paletteRule.run .fix sheet).sheet.print = paletteText ∧
      (sheet.body.labels.flatMap paletteRule.reports).map Violation.snippet = ["p.rot blue"] ∧
      (paletteRule.run .fix sheet).violations = sheet.body.labels.flatMap paletteRule.reports ∧
      ∃ front back behind added, sheet.body.map paletteRule.rewriteNode = front ++ back ∧
        (paletteRule.run .fix sheet).sheet.body = front ++ (leaves added ++ behind) ∧
        (∀ node ∈ added, isUse node = true ∧ sheet.fresh ≤ node.id) := by
  obtain ⟨sheet, ok⟩ : ∃ sheet, Sheet.parse paletteSource = .ok sheet := Sheet.parses (by decide +kernel)
  have printed : (Sheet.parse paletteSource).toOption.map
      (fun sheet => (paletteRule.run .fix sheet).sheet.print) = some paletteText := by decide +kernel
  have reported : (Sheet.parse paletteSource).toOption.map (fun sheet =>
      (sheet.body.labels.flatMap paletteRule.reports).map Violation.snippet) = some ["p.rot blue"] := by
    decide +kernel
  rw [ok, Except.toOption, Option.map_some, Option.some_inj] at printed reported
  obtain ⟨violations, -, ⟨front, back, behind, added, whole, body, uses, -⟩, -⟩ :=
    fixRunsByDeclaration paletteRule ok
  exact ⟨sheet, ok, printed, reported, violations, front, back, behind, added, whole, body, uses⟩

end MagicRule
end SheetLint
