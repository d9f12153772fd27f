import SheetLint.Proofs.Rescan

/-! When a sheet can be read back from its print. `legible` is the exact condition, on each node and
the character printed behind it; `Sound` is what holds of every node of a sheet that was read, and of
those whose selector the fix of misplaced combinators has changed. -/
namespace SheetLint
open Text (isBlank trimEnd)
open Scan (State dangling)

namespace NodeData

def wording (node : NodeData) : String :=
  match node.kind with
  | .declaration prop value important =>
    prop ++ node.raws.between ++ value ++ (if important then node.flag else "") ++ node.raws.after
  | .atRule _ params _ => params ++ node.raws.between
  | _ => ""

def holds (node : NodeData) (last : Bool) (next : Option Char) : Bool :=
  dangling node.wording.toList != some '\\' ||
    !(node.raws.semicolon || !last || next == some ';' || next == some '\x7d')

/- Whether a node is read back as it is, where no sibling follows if `last` and `next` is the character
behind it. A selector must not look like a comment or an at-rule, nor end in what takes the brace
along; a comment to the end of the line needs that end. -/
def legible (node : NodeData) (last : Bool) (next : Option Char) : Bool :=
  match node.kind with
  | .rule _ =>
    plainStart (node.heading.toList ++ ['\x7b']) && dangling node.heading.toList == none
  | .comment _ true => next == none || next == some '\n'
  | .declaration .. => node.holds last next
  | .atRule _ _ false => node.holds last next
  | _ => true

end NodeData

def Forest.legible : Forest Node → Option Char → Bool
  | nil, _ => true
  | cons node children next, follow =>
    node.data.legible next.isEmpty (next.print.toList.head?.or follow) &&
      children.legible (node.data.raws.after.toList ++ ['\x7d']).head? && next.legible follow

def Sheet.legible (sheet : Sheet) : Bool := sheet.body.legible sheet.root.raws.after.toList.head?

structure NodeData.Stated (node : NodeData) (s : State) : Prop where
  run : (State.start 0).passes node.wording.toList = some s
  out : s.outside = true
  closed : node.raws.semicolon = true → s.stops ';' = true

inductive NodeData.Sound (node : NodeData) : Prop where
  | rule {selector} (kind : node.kind = .rule selector)
      (heading : Heading selector.toList node.raws.between.toList)
  | comment {text body rest} (kind : node.kind = .comment text false)
      (closed : Scan.closeComment body = some (text.toList, rest))
  | line {text} (kind : node.kind = .comment text true) (line : '\n' ∉ text.toList)
  | declaration {text d s} (parts : DeclarationText.ofText? text = some d) (kind : node.kind = d.kind)
      (wording : node.wording.toList = if node.raws.semicolon then text else d.core)
      (bare : node.raws.semicolon = false → node.raws.after = "") (stated : node.Stated s)
      (plain : ∀ more, plainStart (d.core ++ more) = true)
      (visible : ∀ c ∈ d.core.head?, isLayout c = false)
  | atRule {name params block s} (kind : node.kind = .atRule name params block)
      (named : Named name.toList node.raws.afterName.toList node.wording.toList)
      (trimmed : ∀ c ∈ params.toList.getLast?, isBlank c = false)
      (blank : ∀ c ∈ node.raws.between.toList, isBlank c = true)
      (bare : block = false → node.raws.semicolon = false → node.raws.between = "")
      (stated : node.Stated s) (opens : block = true → s.stops '\x7b' = true)

/-! ## One node -/

theorem markSome {c : Char} {cs rest : List Char} {m : Option Kind}
    (found : scanMark (c :: cs) = some (m, rest)) (other : c ≠ '\x7d') : ∃ kind, m = some kind := by
  obtain ⟨piece, scanned, rfl⟩ := (scanMarkExact "" 0).mp found
  cases scanned <;> first | exact ⟨_, rfl⟩ | exact absurd rfl other

theorem marksReads {before text rest follow : List Char} {kind : Kind} (blank : Layout before)
    (visible : ∃ c cs, text = c :: cs ∧ isLayout c = false)
    (found : scanMark text = some (some kind, rest)) (same : marks rest = marks follow) :
    marks (before ++ text) = (marks follow).map (some kind :: ·) := by
  obtain ⟨c, cs, rfl, shown⟩ := visible
  rw [marksStep blank shown, found, Option.bind_some, same]

def Misread (kind : Kind) (text : List Char) : Prop :=
  ∀ ms, marks text = some ms → ∃ other more, ms = some other :: more ∧ other ≠ kind

theorem Misread.differs {kind : Kind} {text : List Char} {ms : List (Option Kind)} (bad : Misread kind text)
    (found : marks text = some ms) (kinds : List Kind) : ¬ kind :: kinds <+: ms.reduceOption := by
  obtain ⟨other, more, rfl, differs⟩ := bad ms found
  rintro ⟨rest, same⟩
  rw [List.reduceOption_cons_of_some] at same
  exact differs (List.cons.inj same).1.symm

theorem marksMisreads {before text : List Char} {kind : Kind} (blank : Layout before)
    (visible : ∃ c cs, text = c :: cs ∧ isLayout c = false ∧ c ≠ '\x7d')
    (other : ∀ m rest, scanMark text = some (m, rest) → m ≠ some kind) :
    Misread kind (before ++ text) := by
  obtain ⟨c, cs, rfl, shown, brace⟩ := visible
  intro ms found
  rw [marksStep blank shown, Option.bind_eq_some_iff] at found
  obtain ⟨⟨m, rest⟩, first, others⟩ := found
  obtain ⟨more, -, rfl⟩ := Option.map_eq_some_iff.mp others
  obtain ⟨own, rfl⟩ := markSome first brace
  exact ⟨own, more, rfl, fun same => other _ rest first (congrArg some same)⟩

def NodeData.terminator (node : NodeData) (last : Bool) : String :=
  if node.raws.semicolon || !last then ";" else ""

variable {node : NodeData} {before follow : List Char} {last : Bool}

theorem renderComment {text : String} (kind : node.kind = .comment text false) (follow : List Char) :
    (node.render last "").toList ++ follow = '/' :: '*' :: (text.toList ++ '*' :: '/' :: follow) := by
  simp [NodeData.render, kind]

theorem renderLine {text : String} (kind : node.kind = .comment text true) (follow : List Char) :
    (node.render last "").toList ++ follow = '/' :: '/' :: (text.toList ++ follow) := by
  simp [NodeData.render, kind]

theorem renderDeclaration {prop value : String} {important : Bool}
    (kind : node.kind = .declaration prop value important)
    (bare : node.raws.semicolon = false → node.raws.after = "") :
    node.render last "" = node.wording ++ node.terminator last := by
  unfold NodeData.render NodeData.wording NodeData.terminator
  rw [kind]
  cases semicolon : node.raws.semicolon with
  | true => simp [String.append_assoc]
  | false => cases last <;> simp [bare semicolon, String.append_assoc]

theorem renderAtRule {name params : String} (kind : node.kind = .atRule name params false)
    (bare : node.raws.semicolon = false → node.raws.between = "") :
    node.render last "" =
      "@" ++ (name ++ (node.raws.afterName ++ (node.wording ++ node.terminator last))) := by
  unfold NodeData.render NodeData.wording NodeData.terminator
  rw [kind]
  cases semicolon : node.raws.semicolon with
  | true => simp [String.append_assoc]
  | false => cases last <;> simp [bare semicolon, String.append_assoc]

theorem terminatorMarks (follow : List Char) :
    marks ((node.terminator last).toList ++ follow) = marks follow := by
  unfold NodeData.terminator
  split
  · have none : ∀ c ∈ ([] : List Char), Text.isAsciiBlank c = true := by simp
    exact marksSemicolon none follow
  · rfl

theorem openCloses {s : State} (isOpen : node.raws.semicolon = false) (stated : node.Stated s)
    (tail : last = true → Tail follow) (holds : node.holds last follow.head? = true) :
    Closes s ((node.terminator last).toList ++ follow) := by
  have escape := (Scan.danglingExact stated.run stated.out).1
  unfold NodeData.terminator
  unfold NodeData.holds at holds
  rw [isOpen] at holds ⊢
  cases last with
  | false =>
    refine closesOutside stated.out (.inr ⟨follow, rfl⟩) fun held => ?_
    rw [escape.mpr held] at holds
    cases holds
  | true =>
    refine closesOutside stated.out (.inl (tail rfl)) fun held => ?_
    rw [escape.mpr held] at holds
    simpa using holds

theorem openHeld {s : State} (stated : node.Stated s) (holds : node.holds last follow.head? = false) :
    node.raws.semicolon = false ∧ s.spot = .escape ∧
      ∃ c more, (node.terminator last).toList ++ follow = c :: more ∧ isBlank c = false := by
  have escape := (Scan.danglingExact stated.run stated.out).1
  unfold NodeData.holds at holds
  rw [Bool.or_eq_false_iff] at holds
  obtain ⟨held, follows⟩ := holds
  have held := escape.mp (by simpa using held)
  have isOpen : node.raws.semicolon = false := by
    rw [Bool.eq_false_iff]
    intro semicolon
    exact (State.outsideStop (stated.closed semicolon)).2 held
  refine ⟨isOpen, held, ?_⟩
  unfold NodeData.terminator
  rw [isOpen] at follows ⊢
  cases last with
  | false => exact ⟨';', follow, rfl, rfl⟩
  | true =>
    cases follow with
    | nil => cases follows
    | cons c more =>
      have ends : c = ';' ∨ c = '\x7d' := by
        simpa [Classical.or_iff_not_imp_left] using follows
      rcases ends with rfl | rfl <;> exact ⟨_, more, rfl, rfl⟩

theorem coreShown {text : List Char} {d : DeclarationText} (parts : DeclarationText.ofText? text = some d)
    (plain : ∀ more, plainStart (d.core ++ more) = true)
    (visible : ∀ c ∈ d.core.head?, isLayout c = false) (more : List Char) :
    ∃ c cs, d.core ++ more = c :: cs ∧ isLayout c = false ∧ c ≠ '\x7d' := by
  obtain ⟨name, rest, -, core, -⟩ := coreParts parts
  have begins := plain more
  cases whole : d.core with
  | nil =>
    rw [whole] at core
    exact absurd core.symm (by simp)
  | cons c cs =>
    rw [whole] at visible begins
    refine ⟨c, cs ++ more, rfl, visible c rfl, ?_⟩
    rintro rfl
    cases begins

theorem terminatorEnded (semicolon : node.raws.semicolon = true) (follow : List Char) :
    (node.terminator last).toList ++ follow = ';' :: follow := by
  simp [NodeData.terminator, semicolon]

theorem declarationReads {text : List Char} {d : DeclarationText} {s : State}
    (parts : DeclarationText.ofText? text = some d) (kind : node.kind = d.kind)
    (wording : node.wording.toList = if node.raws.semicolon then text else d.core)
    (stated : node.Stated s) (plain : ∀ more, plainStart (d.core ++ more) = true)
    (tail : last = true → Tail follow) (holds : node.holds last follow.head? = true) :
    ∃ rest, scanMark (node.wording.toList ++ ((node.terminator last).toList ++ follow)) =
      some (some node.kind, rest) ∧ marks rest = marks follow := by
  have run := stated.run
  cases semicolon : node.raws.semicolon with
  | true =>
    rw [wording, semicolon, if_pos rfl] at run ⊢
    have plain' (more : List Char) : plainStart (text ++ more) = true := by
      rw [← declarationWhole parts, List.append_assoc]
      exact plain _
    rw [terminatorEnded semicolon, kind]
    exact ⟨follow, endedReads parts plain' run (stated.closed semicolon), rfl⟩
  | false =>
    have closes := openCloses semicolon stated tail holds
    rw [wording, semicolon] at run ⊢
    obtain ⟨rest, found, same⟩ := openReads parts plain run closes
    rw [← kind] at found
    exact ⟨rest, found, same.trans (terminatorMarks follow)⟩

theorem atRuleReads {name params : String} {s : State} (kind : node.kind = .atRule name params false)
    (named : Named name.toList node.raws.afterName.toList node.wording.toList)
    (trimmed : ∀ c ∈ params.toList.getLast?, isBlank c = false)
    (blank : ∀ c ∈ node.raws.between.toList, isBlank c = true)
    (bare : node.raws.semicolon = false → node.raws.between = "") (stated : node.Stated s)
    (tail : last = true → Tail follow) (holds : node.holds last follow.head? = true) :
    ∃ rest, scanMark ('@' :: (name.toList ++ (node.raws.afterName.toList ++
        (node.wording.toList ++ ((node.terminator last).toList ++ follow))))) =
      some (some node.kind, rest) ∧ marks rest = marks follow := by
  have wording : node.wording = params ++ node.raws.between := by rw [NodeData.wording, kind]
  cases semicolon : node.raws.semicolon with
  | true =>
    have trim : trimEnd node.wording.toList = params.toList := by
      rw [wording, String.toList_append, Text.trimEndBlanks trimmed blank]
    have found := atEndedReads named stated.run (stated.closed semicolon) follow
    rw [trim, String.ofList_toList, String.ofList_toList, ← kind] at found
    rw [terminatorEnded semicolon]
    exact ⟨follow, found, rfl⟩
  | false =>
    rw [bare semicolon, String.append_empty] at wording
    obtain ⟨rest, found, same⟩ := atOpenReads named (wording ▸ trimmed) stated.run
      (openCloses semicolon stated tail holds)
    rw [wording, String.ofList_toList, String.ofList_toList, ← kind] at found
    exact ⟨rest, wording ▸ found, same.trans (terminatorMarks follow)⟩

theorem leafReads (sound : node.Sound) (leaf : node.kind.isBlock = false) (blank : Layout before)
    (tail : last = true → Tail follow) (legible : node.legible last follow.head? = true) :
    marks (before ++ ((node.render last "").toList ++ follow)) =
      (marks follow).map (some node.kind :: ·) := by
  unfold NodeData.legible at legible
  cases sound with
  | rule kind heading =>
    rw [kind] at leaf
    cases leaf
  | @comment text body rest kind closed =>
    have found := commentReads closed follow
    rw [String.ofList_toList, ← kind] at found
    rw [renderComment kind]
    exact marksReads blank ⟨_, _, rfl, rfl⟩ found rfl
  | @line text kind line =>
    have ends : follow.takeWhile (· != '\n') = [] ∧ follow.dropWhile (· != '\n') = follow := by
      rw [kind] at legible
      cases follow with
      | nil => exact ⟨rfl, rfl⟩
      | cons c cs =>
        have newline : c = '\n' := by simpa using legible
        subst newline
        exact ⟨rfl, rfl⟩
    have found := lineMark line follow
    rw [ends.1, ends.2, List.append_nil, String.ofList_toList, ← kind] at found
    rw [renderLine kind]
    exact marksReads blank ⟨_, _, rfl, rfl⟩ found rfl
  | @declaration text d s parts kind wording bare stated plain visible =>
    rw [kind] at legible
    obtain ⟨rest, found, same⟩ := declarationReads parts kind wording stated plain tail legible
    rw [renderDeclaration kind bare, String.toList_append, List.append_assoc]
    obtain ⟨more, whole⟩ : ∃ more, node.wording.toList = d.core ++ more := by
      rw [wording]
      split
      · exact ⟨d.after, (declarationWhole parts).symm⟩
      · exact ⟨[], (List.append_nil _).symm⟩
    rw [whole, List.append_assoc] at found ⊢
    obtain ⟨c, cs, first, shown, -⟩ := coreShown parts plain visible _
    exact marksReads blank ⟨c, cs, first, shown⟩ found same
  | @atRule name params block s kind named trimmed gap bare stated opens =>
    rw [kind] at leaf legible
    cases block with
    | true => cases leaf
    | false =>
      obtain ⟨rest, found, same⟩ :=
        atRuleReads kind named trimmed gap (bare rfl) stated tail legible
      rw [renderAtRule kind (bare rfl)]
      simp only [String.toList_append, List.append_assoc]
      exact marksReads blank ⟨'@', _, rfl, rfl⟩ found same

theorem leafMisreads (sound : node.Sound) (leaf : node.kind.isBlock = false) (blank : Layout before)
    (bad : node.legible last follow.head? = false) :
    Misread node.kind (before ++ ((node.render last "").toList ++ follow)) := by
  unfold NodeData.legible at bad
  cases sound with
  | rule kind heading =>
    rw [kind] at leaf
    cases leaf
  | comment kind closed =>
    rw [kind] at bad
    cases bad
  | @line text kind line =>
    rw [renderLine kind]
    refine marksMisreads blank ⟨_, _, rfl, rfl, by decide⟩ fun m rest found => ?_
    rw [lineMark line follow] at found
    rw [kind] at bad ⊢
    cases follow with
    | nil => cases bad
    | cons c cs =>
      have other : c ≠ '\n' := by simpa using bad
      have same := congrArg Prod.fst (Option.some.inj found)
      rintro rfl
      have equal := congrArg String.toList (Kind.comment.inj (Option.some.inj same)).1
      rw [String.toList_ofList, List.takeWhile_cons_of_pos (by simpa using other)] at equal
      have longer := congrArg List.length equal
      simp at longer
  | @declaration text d s parts kind wording bare stated plain visible =>
    rw [kind] at bad
    obtain ⟨isOpen, held, c, more, behind, shown⟩ := openHeld stated bad
    have run := stated.run
    rw [renderDeclaration kind bare, String.toList_append, List.append_assoc, behind]
    rw [wording, isOpen] at run ⊢
    rw [kind]
    exact marksMisreads blank (coreShown parts plain visible _)
      fun m rest found => openMisreads parts run stated.out held shown found
  | @atRule name params block s kind named trimmed gap bare stated opens =>
    rw [kind] at leaf bad
    cases block with
    | true => cases leaf
    | false =>
      obtain ⟨isOpen, held, c, more, behind, shown⟩ := openHeld stated bad
      have wording : node.wording = params := by
        rw [NodeData.wording, kind]
        simp [bare rfl isOpen]
      rw [renderAtRule kind (bare rfl)]
      simp only [String.toList_append, List.append_assoc, behind]
      refine marksMisreads blank ⟨'@', _, rfl, rfl, by decide⟩ fun m rest found => ?_
      have other := atOpenMisreads named stated.run held shown found
      rwa [wording, String.ofList_toList, String.ofList_toList, ← kind] at other

/-! ## The heading of a block -/

theorem headingShown {selector between : List Char} (heading : Heading selector between) (more : List Char) :
    ∃ c cs, selector ++ between ++ '\x7b' :: more = c :: cs ∧ isLayout c = false ∧ c ≠ '\x7d' := by
  have visible := heading.visible
  obtain ⟨s, run, -⟩ := headingRun heading
  generalize selector ++ between = text at visible run
  cases text with
  | nil => exact ⟨'\x7b', more, rfl, rfl, by decide⟩
  | cons c cs =>
    refine ⟨c, cs ++ '\x7b' :: more, rfl, visible c rfl, ?_⟩
    rintro rfl
    cases run

theorem ruleHeading {selector : String} (kind : node.kind = .rule selector) :
    node.heading.toList = selector.toList ++ node.raws.between.toList := by
  rw [NodeData.heading, kind, String.toList_append]

theorem blockReads (sound : node.Sound) (block : node.kind.isBlock = true) (blank : Layout before)
    {next : Option Char} (legible : node.legible last next = true) :
    marks (before ++ (node.heading.toList ++ '\x7b' :: follow)) =
      (marks follow).map (some node.kind :: ·) := by
  unfold NodeData.legible at legible
  cases sound with
  | @rule selector kind heading =>
    have whole := ruleHeading kind
    rw [kind, whole, Bool.and_eq_true, beq_iff_eq] at legible
    obtain ⟨plain, free⟩ := legible
    have found := headingReads heading plain free follow
    rw [String.ofList_toList, ← kind] at found
    obtain ⟨c, cs, first, shown, -⟩ := headingShown heading follow
    rw [whole]
    exact marksReads blank ⟨c, cs, first, shown⟩ found rfl
  | comment kind | line kind | declaration _ kind =>
    rw [kind] at block
    cases block
  | @atRule name params block' s kind named trimmed gap bare stated opens =>
    rw [kind] at block
    have wording : node.wording.toList = params.toList ++ node.raws.between.toList := by
      rw [NodeData.wording, kind, String.toList_append]
    have whole : node.heading.toList ++ '\x7b' :: follow = '@' :: (name.toList ++
        (node.raws.afterName.toList ++ (node.wording.toList ++ '\x7b' :: follow))) := by
      rw [NodeData.heading, kind, wording]
      simp
    have found := atBlockReads named stated.run (opens block) follow
    rw [wording, Text.trimEndBlanks trimmed gap, String.ofList_toList, String.ofList_toList,
      ← show block' = true from block, ← kind, ← wording] at found
    rw [whole]
    exact marksReads blank ⟨'@', _, rfl, rfl⟩ found rfl

theorem blockMisreads (sound : node.Sound) (block : node.kind.isBlock = true) (blank : Layout before)
    {next : Option Char} (bad : node.legible last next = false) :
    Misread node.kind (before ++ (node.heading.toList ++ '\x7b' :: follow)) := by
  unfold NodeData.legible at bad
  cases sound with
  | @rule selector kind heading =>
    have whole := ruleHeading kind
    rw [kind, whole, Bool.and_eq_false_iff, beq_eq_false_iff_ne] at bad
    rw [whole]
    refine marksMisreads blank (headingShown heading follow) fun m rest found => ?_
    have other := headingMisreads heading bad found
    rwa [String.ofList_toList, ← kind] at other
  | comment kind | line kind | declaration _ kind =>
    rw [kind] at block
    cases block
  | atRule kind =>
    rw [kind] at block bad
    cases show _ = true from block
    cases bad

end SheetLint
