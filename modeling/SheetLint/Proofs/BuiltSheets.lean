import SheetLint.Proofs.SeparatedLayout

/-! Sheets that are built from nothing. A node made from plain texts, with the layout that new nodes have,
can be read back wherever it stands; adding such nodes, moving and removing them leaves all nodes of that
kind, so the print of the sheet gives its outline back. -/
namespace SheetLint
open Text (isBlank isAsciiBlank trimEnd trimStart leading trailing)
open Scan (State dangling)

def isMarkup (c : Char) : Bool :=
  ['\x7b', '\x7d', '(', ')', ';', '"', '\'', '\\', '/', '!', '@'].contains c

structure PlainText (text : List Char) : Prop where
  unmarked : ∀ c ∈ text, isMarkup c = false
  first : StartsVisibly text
  last : EndsVisibly text

theorem plainTextAll {text : List Char} :
    (text.all (!isMarkup ·) ∧ text.head?.all (!isBlank ·) ∧ text.getLast?.all (!isBlank ·)) ↔ PlainText text := by
  simp only [List.all_eq_true, Option.all_eq_true, Bool.not_eq_true']
  exact ⟨fun ⟨unmarked, first, last⟩ => ⟨unmarked, first, last⟩,
    fun plain => ⟨plain.unmarked, plain.first, plain.last⟩⟩

instance (text : List Char) : Decidable (PlainText text) := decidable_of_iff _ plainTextAll

inductive NodeData.Plain : NodeData → Prop where
  | rule {selector} (plain : PlainText selector.toList) (some : selector ≠ "") : Plain (.rule selector)
  | declaration {prop value} (named : PlainText prop.toList) (some : prop ≠ "") (whole : ':' ∉ prop.toList)
      (plain : PlainText value.toList) : Plain (.declaration prop value)
  | atRule {name params} (named : PlainText name.toList) (whole : name.toList.any isBlank = false)
      (plain : PlainText params.toList) : Plain (.atRule name params)
  | comment {text} (endless : Text.occursIn ['*', '/'] text.toList = false) :
      Plain ⟨.comment text false, {}, none⟩

/-! ## Plain texts -/

section Texts
variable {text : List Char} {c : Char}

theorem unmarkedNe {d : Char} (unmarked : isMarkup c = false) (markup : isMarkup d = true) : c ≠ d := by
  rintro rfl
  cases unmarked.symm.trans markup

theorem visibleAscii (visible : isBlank c = false) : isAsciiBlank c = false := by
  rw [Bool.eq_false_iff]
  intro blank
  cases visible.symm.trans (Text.blankOfAscii blank)

theorem unmarkedVisible (unmarked : isMarkup c = false) (visible : isBlank c = false) : isLayout c = false := by
  rw [isLayout, Bool.or_eq_false_iff, beq_eq_false_iff_ne]
  exact ⟨visibleAscii visible, unmarkedNe unmarked (by decide)⟩

theorem unmarkedStart (unmarked : isMarkup c = false) (more : List Char) : plainStart (c :: more) = true := by
  refine plainOther ?_ ?_ ?_ ?_ <;> intro rest same <;> obtain ⟨rfl, -⟩ := List.cons.inj same <;> cases unmarked

def Scan.State.loose (s : State) : Prop := s = ⟨.plain, 0⟩ ∨ s = ⟨.hash, 0⟩

theorem unmarkedOrdinary (unmarked : isMarkup c = false) (other : c ≠ '#') : State.ordinary c = true := by
  rw [State.ordinary, Scan.endsStatement, Bool.not_eq_true', Bool.eq_false_iff]
  intro special
  simp only [Bool.or_eq_true, beq_iff_eq, other, or_false] at special
  rcases special with (((((rfl | rfl) | rfl) | rfl) | rfl) | rfl) | ((rfl | rfl) | rfl) <;> cases unmarked

theorem looseStep {s : State} (loose : s.loose) (unmarked : isMarkup c = false) :
    s.stops c = false ∧ (s.step c).loose := by
  by_cases hash : c = '#'
  · subst hash
    rcases loose with rfl | rfl <;> exact ⟨rfl, .inr rfl⟩
  · have plain := unmarkedOrdinary unmarked hash
    have goes := State.ordinaryGoes plain 0
    have next := State.enterOrdinary plain 0
    rcases loose with rfl | rfl
    · exact ⟨goes, .inl next⟩
    · have ends : c ≠ ';' ∧ c ≠ '\x7d' := ⟨unmarkedNe unmarked (by decide), unmarkedNe unmarked (by decide)⟩
      have opens : c ≠ '\x7b' := unmarkedNe unmarked (by decide)
      refine ⟨by simp [State.stops, ends], .inl ?_⟩
      rw [State.step]
      exact (if_neg opens).trans next

theorem loosePasses {s : State} (loose : s.loose) (unmarked : ∀ c ∈ text, isMarkup c = false) :
    ∃ t, s.passes text = some t ∧ t.loose := by
  induction text generalizing s with
  | nil => exact ⟨s, rfl, loose⟩
  | cons c cs ih =>
    obtain ⟨first, others⟩ := List.forall_mem_cons.mp unmarked
    obtain ⟨goes, next⟩ := looseStep loose first
    rw [State.passesCons goes]
    exact ih next others

theorem looseOutside {s : State} (loose : s.loose) : s.outside = true ∧ s.stops ';' = true := by
  rcases loose with rfl | rfl <;> exact ⟨rfl, rfl⟩

theorem unmarkedHeld (unmarked : ∀ c ∈ text, isMarkup c = false) : dangling text ≠ some '\\' := by
  intro held
  cases unmarked _ (List.mem_of_getLast? (Scan.danglingLast held))

theorem commentCloses (endless : Text.occursIn ['*', '/'] text = false) :
    Scan.closeComment (text ++ ['*', '/']) = some (text, []) := by
  induction text with
  | nil => rfl
  | cons c cs ih =>
    rw [Text.occursIn, Bool.or_eq_false_iff] at endless
    have other : ∀ rest, c = '*' → cs ++ ['*', '/'] ≠ '/' :: rest := by
      rintro rest rfl same
      cases cs with
      | nil => cases same
      | cons d ds =>
        obtain ⟨rfl, -⟩ := List.cons.inj same
        cases endless.1
    rw [List.cons_append, Scan.closeComment, ih endless.2]
    · rfl
    · exact other

end Texts

/-! ## Nodes -/

theorem PlainText.visible {text : List Char} (plain : PlainText text) : ∀ c ∈ text.head?, isLayout c = false :=
  fun c first => unmarkedVisible (plain.unmarked c (List.mem_of_head? first)) (plain.first c first)

theorem PlainText.trimmed {text : List Char} (plain : PlainText text) :
    trimStart text = text ∧ trimEnd text = text ∧ trailing text = [] := by
  have back := endsVisibly plain.last
  have whole := Text.trimEndTrailing text
  rw [back, List.append_right_eq_self] at whole
  exact ⟨Text.trimStartVisible plain.first, back, whole⟩

theorem PlainText.runs {text : List Char} (plain : PlainText text) :
    ∃ s, (State.start 0).passes text = some s ∧ s.loose := loosePasses (.inl rfl) plain.unmarked

theorem ruleRuns {selector : String} (plain : PlainText selector.toList) :
    (State.start 0).passes (selector ++ " ").toList = some (State.start 0) := by
  obtain ⟨s, run, loose⟩ := plain.runs
  rw [String.toList_append, State.passesAppend, run, Option.bind_some]
  rcases loose with rfl | rfl <;> rfl

theorem importantMissing {value : List Char} (free : '!' ∉ value) : splitImportant value = (value, []) := by
  unfold splitImportant
  split
  · next front tail cut => exact absurd (by rw [Text.splitLastWhole cut]; simp) free
  · rfl

theorem valueWhole {value : List Char} (plain : PlainText value) : splitImportant value = (value, []) :=
  importantMissing fun mark => Bool.false_ne_true (plain.unmarked '!' mark).symm

theorem declarationParts {prop value : List Char} (named : PlainText prop) (whole : ':' ∉ prop)
    (plain : PlainText value) :
    DeclarationText.ofText? (prop ++ ':' :: ' ' :: value) = some ⟨prop, [':', ' '], value, [], []⟩ := by
  have free : ∀ c ∈ prop, c ≠ ':' := fun c inside same => whole (same ▸ inside)
  have front : trimStart (' ' :: value) = value := by
    rw [trimStart, List.dropWhile_cons_of_pos (by decide)]
    exact plain.trimmed.1
  have gap : leading (' ' :: value) = [' '] := by
    have split := Text.leadingTrimStart (' ' :: value)
    rw [front, ← List.singleton_append] at split
    exact List.append_cancel_right split
  rw [DeclarationText.ofText?, Text.splitFirstFree free, Option.map_some]
  dsimp only
  rw [front, gap, plain.trimmed.2.1, plain.trimmed.2.2, valueWhole plain, named.trimmed.2.1, named.trimmed.2.2]
  rfl

theorem declarationUnmarked {prop value : List Char} (named : PlainText prop) (plain : PlainText value) :
    ∀ c ∈ prop ++ ':' :: ' ' :: value, isMarkup c = false := by
  refine List.forall_mem_append.mpr ⟨named.unmarked, ?_⟩
  exact List.forall_mem_cons.mpr ⟨by decide, List.forall_mem_cons.mpr ⟨by decide, plain.unmarked⟩⟩

theorem atRuleNamed {name params : String} (named : PlainText name.toList)
    (whole : name.toList.any isBlank = false) (plain : PlainText params.toList) :
    Named name.toList (NodeData.atRule name params).raws.afterName.toList params.toList where
  letters := by
    intro c inside
    have solid : isAsciiBlank c = false := visibleAscii (by simpa using List.any_eq_false.mp whole c inside)
    have other {d : Char} (markup : isMarkup d = true) : (c == d) = false :=
      beq_eq_false_iff_ne.mpr (unmarkedNe (named.unmarked c inside) markup)
    rw [endsName, solid, other (d := '\x7b') rfl, other (d := '\x7d') rfl, other (d := ';') rfl,
      other (d := '(') rfl, other (d := '"') rfl, other (d := '\'') rfl]
    rfl
  spaces := by
    dsimp only [NodeData.atRule]
    split <;> simp [isAsciiBlank]
  first := fun c first => visibleAscii (plain.first c first)
  apart := by
    intro none c first
    dsimp only [NodeData.atRule] at none
    split at none
    · next empty =>
      rw [String.isEmpty_iff.mp empty] at first
      cases first
    · simp at none

namespace NodeData

theorem declarationWord (prop value : String) :
    (declaration prop value).wording.toList = prop.toList ++ ':' :: ' ' :: value.toList := by
  simp [wording, declaration]

theorem atRuleWord (name params : String) : (atRule name params).wording.toList = params.toList :=
  congrArg String.toList String.append_empty

theorem Plain.sound {node : NodeData} (plain : node.Plain) : node.Sound := by
  cases plain with
  | @rule selector plain some =>
    obtain ⟨s, run, loose⟩ := plain.runs
    have first : selector.toList ≠ [] := by simpa using some
    have space : isBlank ' ' = true := rfl
    refine .rule rfl ⟨by simp [NodeData.rule, space], plain.last, ⟨s, run, (looseOutside loose).1⟩, ?_⟩
    rw [List.head?_append_of_ne_nil _ first]
    exact plain.visible
  | @declaration prop value named some whole plain =>
    obtain ⟨s, run, loose⟩ := loosePasses (s := .start 0) (.inl rfl) (declarationUnmarked named plain)
    obtain ⟨c, cs, first⟩ := List.exists_cons_of_ne_nil (show prop.toList ≠ [] by simpa using some)
    have core : DeclarationText.core ⟨prop.toList, [':', ' '], value.toList, [], []⟩ =
        c :: (cs ++ [':', ' '] ++ value.toList) := by
      simp [DeclarationText.core, first]
    have word := declarationWord prop value
    refine .declaration (declarationParts named whole plain) ?_ word (by rintro ⟨⟩)
      ⟨by rw [word]; exact run, (looseOutside loose).1, fun _ => (looseOutside loose).2⟩ ?_ ?_
    · simp [DeclarationText.kind, NodeData.declaration]
    · intro more
      rw [core]
      exact unmarkedStart (named.unmarked c (by simp [first])) _
    · rw [core]
      intro d head
      exact named.visible d (by rw [first]; exact head)
  | @atRule name params named whole plain =>
    obtain ⟨s, run, loose⟩ := plain.runs
    have word := atRuleWord name params
    refine .atRule rfl ?_ plain.last (by simp [NodeData.atRule]) (fun _ _ => rfl)
      ⟨by rw [word]; exact run, (looseOutside loose).1, fun _ => (looseOutside loose).2⟩ (by rintro ⟨⟩)
    rw [word]
    exact atRuleNamed named whole plain
  | comment endless => exact .comment rfl (commentCloses endless)

theorem holdsUnmarked {node : NodeData} (unmarked : ∀ c ∈ node.wording.toList, isMarkup c = false) (last : Bool)
    (next : Option Char) : node.holds last next = true := by
  rw [holds, bne_iff_ne.mpr (unmarkedHeld unmarked)]
  rfl

theorem Plain.legible {node : NodeData} (plain : node.Plain) (last : Bool) (next : Option Char) :
    node.legible last next = true := by
  cases plain with
  | @rule selector plain some =>
    have free : dangling (selector ++ " ").toList = none :=
      (Scan.danglingExact (ruleRuns plain) rfl).2.mpr rfl
    obtain ⟨c, cs, first⟩ := List.exists_cons_of_ne_nil (show selector.toList ≠ [] by simpa using some)
    have starts : plainStart ((selector ++ " ").toList ++ ['\x7b']) = true := by
      rw [String.toList_append, first]
      exact unmarkedStart (plain.unmarked c (by simp [first])) _
    dsimp only [NodeData.legible, NodeData.rule, heading]
    rw [starts, free]
    rfl
  | declaration named some whole plain =>
    exact holdsUnmarked (by rw [declarationWord]; exact declarationUnmarked named plain) last next
  | atRule named whole plain =>
    exact holdsUnmarked (by rw [atRuleWord]; exact plain.unmarked) last next
  | comment => rfl

theorem Plain.bare {node : NodeData} (plain : node.Plain) : node.raws.before = "" ∧ node.raws.after = "" := by
  cases plain <;> exact ⟨rfl, rfl⟩

theorem Plain.isBlock {node : NodeData} (plain : node.Plain) (container : node.isContainer = true) :
    node.kind.isBlock = true := by
  cases plain with
  | rule => rfl
  | declaration => cases container
  | atRule => cases container
  | comment => cases container

end NodeData

/-! ## Forests -/

namespace Forest

inductive Plain : Forest Node → Prop where
  | nil : Plain nil
  | cons {node children next} (own : node.data.Plain) (shape : children = .nil ∨ node.kind.isBlock = true)
      (body : Plain children) (tail : Plain next) : Plain (cons node children next)

variable {f g : Forest Node} {id : NodeId}

theorem Plain.leaf {data : NodeData} (plain : data.Plain) (id : NodeId) : Plain (.cons ⟨id, data⟩ .nil .nil) :=
  .cons plain (.inl rfl) .nil .nil

theorem Plain.append (plain : f.Plain) (more : g.Plain) : (f ++ g).Plain := by
  induction plain with
  | nil => exact more
  | cons own shape body _ _ ih => exact .cons own shape body ih

theorem Plain.appendTo (plain : f.Plain) (more : g.Plain)
    (block : ∀ node ∈ f.labels, node.id = id → node.kind.isBlock = true) :
    (Forest.appendTo id g f).Plain := by
  induction plain with
  | nil => exact .nil
  | @cons node children next own shape body tail ihb iht =>
    obtain ⟨first, others⟩ := List.forall_mem_cons.mp block
    obtain ⟨inside, behind⟩ := List.forall_mem_append.mp others
    rw [Forest.appendTo]
    split
    · next same => exact .cons own (.inr (first same)) (body.append more) tail
    · refine .cons own (shape.imp_left ?_) (ihb inside) (iht behind)
      rintro rfl
      rfl

theorem Plain.insertBefore (plain : f.Plain) (more : g.Plain) : (Forest.insertBefore id g f).Plain := by
  induction plain with
  | nil => exact .nil
  | @cons node children next own shape body tail ihb iht =>
    rw [Forest.insertBefore]
    split
    · exact more.append (.cons own shape body tail)
    · refine .cons own (shape.imp_left ?_) ihb iht
      rintro rfl
      rfl

theorem Plain.erase (plain : f.Plain) : (f.erase id).Plain := by
  induction plain with
  | nil => exact .nil
  | @cons node children next own shape body tail ihb iht =>
    rw [Forest.erase]
    split
    · exact iht
    · refine .cons own (shape.imp_left ?_) ihb iht
      rintro rfl
      rfl

theorem Plain.found {data : NodeData} {children : Forest Node} (plain : f.Plain)
    (found : f.find? id = some (data, children)) : Plain (.cons ⟨id, data⟩ children .nil) := by
  induction plain with
  | nil => cases found
  | @cons node inner next own shape body tail ihb iht =>
    rw [find?] at found
    split at found
    · cases found
      exact .cons own shape body .nil
    · rcases Option.or_eq_some_iff.mp found with below | ⟨-, behind⟩
      · exact ihb below
      · exact iht behind

theorem Plain.labels (plain : f.Plain) : ∀ node ∈ f.labels, node.data.Plain := by
  induction plain with
  | nil => simp [Forest.labels]
  | cons own _ _ _ ihb iht => exact List.forall_mem_cons.mpr ⟨own, List.forall_mem_append.mpr ⟨ihb, iht⟩⟩

theorem Plain.sound (plain : f.Plain) : f.Sound := by
  induction plain with
  | nil => exact .nil
  | @cons node children next own shape body tail ihb iht =>
    obtain ⟨before, after⟩ := own.bare
    have front : Layout node.data.raws.before.toList := by rw [before]; exact noLayout
    have back : Layout node.data.raws.after.toList := by rw [after]; exact noLayout
    cases block : node.kind.isBlock with
    | true => exact .block own.sound block front back ihb iht
    | false =>
      obtain rfl : children = .nil := shape.resolve_right (by rw [block]; exact Bool.false_ne_true)
      exact .leaf own.sound block front iht

theorem Plain.legible (plain : f.Plain) (follow : Option Char) : f.legible follow = true := by
  induction plain generalizing follow with
  | nil => rfl
  | cons own shape body tail ihb iht =>
    rw [Forest.legible, own.legible, ihb, iht]
    rfl

end Forest

/-! ## Sheets -/

namespace Sheet

def Change.Plain : Change → Prop
  | append _ data => data.Plain
  | insertBefore _ data => data.Plain
  | moveBefore _ _ => True
  | remove _ => True
  | update _ _ => False

structure Plain (sheet : Sheet) : Prop where
  distinct : sheet.Distinct
  root : sheet.root = .root
  body : sheet.body.Plain

variable {sheet : Sheet}

theorem appendContainer {parent id : NodeId} {data : NodeData} {result : Sheet}
    (ok : sheet.append? parent data = some (id, result)) :
    ∃ above, sheet.get? parent = some above ∧ above.isContainer = true := by
  unfold append? at ok
  split at ok
  · cases ok
  · next above found =>
    split at ok
    · next container => exact ⟨above, found, container⟩
    · cases ok

theorem Plain.append (plain : sheet.Plain) {parent id : NodeId} {data : NodeData} {result : Sheet}
    (ok : sheet.append? parent data = some (id, result)) (made : data.Plain) : result.Plain := by
  have distinct := plain.distinct.append ok
  obtain ⟨above, got, container⟩ := appendContainer ok
  obtain ⟨-, -, rfl⟩ := appendCases ok
  refine ⟨distinct, plain.root, ?_⟩
  dsimp only
  split
  · exact plain.body.append (.leaf made _)
  · next below =>
    refine plain.body.appendTo (.leaf made _) fun node inside same => ?_
    rw [get?, findBody sheet below, ← same, Forest.labelFound plain.distinct.once inside] at got
    cases got
    exact (plain.body.labels node inside).isBlock container

theorem Plain.insertBefore (plain : sheet.Plain) {ref id : NodeId} {data : NodeData} {result : Sheet}
    (ok : sheet.insertBefore? ref data = some (id, result)) (made : data.Plain) : result.Plain := by
  have distinct := plain.distinct.insertBefore ok
  obtain ⟨-, -, rfl⟩ := insertCases ok
  exact ⟨distinct, plain.root, plain.body.insertBefore (.leaf made _)⟩

theorem Plain.moveBefore (plain : sheet.Plain) {ref id : NodeId} {result : Sheet}
    (ok : sheet.moveBefore? ref id = some result) : result.Plain := by
  have distinct := plain.distinct.moveBefore ok
  obtain ⟨data, children, found, -, rfl⟩ := moveCases plain.distinct ok
  exact ⟨distinct, plain.root, plain.body.erase.insertBefore (plain.body.found found)⟩

theorem Plain.remove (plain : sheet.Plain) {id : NodeId} {data : NodeData} {result : Sheet}
    (ok : sheet.remove? id = some (data, result)) : result.Plain := by
  have distinct := plain.distinct.remove ok
  obtain rfl := removeCases ok
  exact ⟨distinct, plain.root, plain.body.erase⟩

theorem Plain.apply (plain : sheet.Plain) {change : Change} (made : change.Plain) :
    (sheet.apply change).Plain := by
  cases change with
  | append parent data =>
    rw [Sheet.apply]
    cases ok : sheet.append? parent data with
    | none => exact plain
    | some result => exact plain.append ok made
  | insertBefore ref data =>
    rw [Sheet.apply]
    cases ok : sheet.insertBefore? ref data with
    | none => exact plain
    | some result => exact plain.insertBefore ok made
  | moveBefore ref id =>
    rw [Sheet.apply]
    cases ok : sheet.moveBefore? ref id with
    | none => exact plain
    | some result => exact plain.moveBefore ok
  | remove id =>
    rw [Sheet.apply]
    cases ok : sheet.remove? id with
    | none => exact plain
    | some result => exact plain.remove ok
  | update id edit => cases made

theorem Plain.changes (plain : sheet.Plain) {changes : List Change} (made : ∀ change ∈ changes, change.Plain) :
    (changes.foldl Sheet.apply sheet).Plain := by
  induction changes generalizing sheet with
  | nil => exact plain
  | cons change rest ih =>
    obtain ⟨first, others⟩ := List.forall_mem_cons.mp made
    exact ih (plain.apply first) others

theorem Plain.sound (plain : sheet.Plain) : sheet.Sound := by
  refine ⟨?_, sheet.body, .nil, (Forest.appendNil _).symm, plain.body.sound, .inl rfl⟩
  rw [plain.root]
  exact noLayout

theorem emptyPlain : empty.Plain := ⟨emptyDistinct, rfl, .nil⟩

theorem builtSheetRereads (changes : List Change) (made : ∀ change ∈ changes, change.Plain) :
    ∃ again, parse (changes.foldl Sheet.apply .empty).print = .ok again ∧
      again.outline = (changes.foldl Sheet.apply .empty).outline := by
  have plain := emptyPlain.changes made
  exact (soundRereads plain.distinct plain.sound).mpr (plain.body.legible _)

def mixedChanges : List Change :=
  [.append 0 (.rule "a:b > #c#"), .append 1 (.declaration "--x" ""), .append 1 (.rule "é, \x09d"),
    .append 3 (.declaration "e" "#f : 1%"), .append 0 (.atRule "use" "x as y"),
    .insertBefore 2 ⟨.comment "/*\x7b*" false, {}, none⟩, .append 3 (.atRule "k" ""), .append 2 (.rule "g"),
    .moveBefore 1 3, .remove 5]

theorem mixedChangesPlain : ∀ change ∈ mixedChanges, change.Plain := by
  simp only [mixedChanges, List.forall_mem_cons, List.not_mem_nil, false_implies, implies_true, and_true]
  exact ⟨.rule (by decide) (by decide), .declaration (by decide) (by decide) (by decide) (by decide),
    .rule (by decide) (by decide), .declaration (by decide) (by decide) (by decide) (by decide),
    .atRule (by decide) (by decide) (by decide), .comment (by decide),
    .atRule (by decide) (by decide) (by decide), .rule (by decide) (by decide), trivial, trivial⟩

theorem builtSheetRereadsMixed :
    (∀ change ∈ mixedChanges, change.Plain) ∧
      ∃ again, parse (mixedChanges.foldl Sheet.apply .empty).print = .ok again ∧
        again.outline = (mixedChanges.foldl Sheet.apply .empty).outline :=
  ⟨mixedChangesPlain, builtSheetRereads mixedChanges mixedChangesPlain⟩

end Sheet
end SheetLint
