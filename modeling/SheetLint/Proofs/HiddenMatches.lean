import SheetLint.Proofs.ColorHints
import SheetLint.Proofs.MatchedRanges

/-! Matches that the quick check does not let through. A color is located where its node denotes it, and a
family name where the group without quotes is the name; the check looks at the text of the value only. It
overlooks a color function that goes on over several lines and a name that is quoted in part. -/
namespace SheetLint
open Text (byteSize byteSizeCons byteSizeAppend)
open ColorHint (Ends)

/-! ## Words -/

def Lexeme.Edged : List Lexeme → Prop
  | [] => True
  | lexeme :: rest =>
    (lexeme.kind = .word → ∀ c ∈ (rest.flatMap text).head?, isWordChar c = false) ∧ Edged rest

theorem Lexeme.firstWord {offset : Nat} {c : Char} {cs : List Char}
    (word : (first offset c cs).1.kind = .word) :
    (first offset c cs).2 = cs.dropWhile isWordChar := by
  unfold first at word ⊢
  split_ifs at word ⊢ with comment blank divider opening closing quote
  · split at word <;> cases word
  · rfl

theorem Lexeme.lexEdged (offset : Nat) (cs : List Char) : Edged (lex offset cs) := by
  fun_induction lex offset cs with
  | case1 => trivial
  | case2 offset c rest ih =>
    refine ⟨fun word d next => ?_, ih⟩
    rw [lexTexts, firstWord word] at next
    have stop := List.head?_dropWhile_not isWordChar rest
    rw [Option.mem_def.mp next] at stop
    exact stop

theorem separatorEnds {c : Char} (separates : Lexeme.isWordChar c = false) : Ends c := by
  simp only [Lexeme.isWordChar, Lexeme.isDividerChar, Lexeme.isQuote, Bool.not_eq_false', Bool.or_eq_true,
    beq_iff_eq] at separates
  rcases separates with (((blank | ((rfl | rfl) | rfl)) | (rfl | rfl)) | rfl) | rfl
  · exact ColorHint.blankEnds (Text.blankOfAscii blank)
  all_goals decide

def Bounded (value : List Char) (word : String) : Prop :=
  word.toList.head? = some '#' →
    ∃ before after, value = before ++ (word.toList ++ after) ∧ ∀ c ∈ after.head?, Ends c

namespace ValueNode

def OfWord (p : String → Prop) : ValueNode → Prop
  | .leaf .word text _ => p text
  | _ => True

def Worded (p : String → Prop) (node : ValueNode) : Prop :=
  ∀ descend, ∀ inner ∈ visit descend node, inner.OfWord p

variable {p : String → Prop} {node : ValueNode} {nodes : List ValueNode}

theorem memVisitAll {descend : ValueNode → Bool} :
    node ∈ visitAll descend nodes ↔ ∃ top ∈ nodes, node ∈ visit descend top := by
  induction nodes with
  | nil => simp [visitAll]
  | cons first rest ih => simp [visitAll, ih]

theorem wordedLeaf {kind : LeafKind} {text : String} {range : ByteRange} :
    Worded p (.leaf kind text range) ↔ OfWord p (.leaf kind text range) := by
  simp [Worded, visit]

theorem wordedCall {name before after : String} {args : List ValueNode} {closed : Bool} {range : ByteRange}
    (inside : ∀ arg ∈ args, arg.Worded p) : Worded p (.call name before after args closed range) := by
  intro descend inner visited
  rw [visit] at visited
  rcases List.mem_cons.mp visited with rfl | below
  · trivial
  · split at below
    · obtain ⟨arg, listed, reached⟩ := memVisitAll.mp below
      exact inside arg listed descend inner reached
    · cases below

theorem wordedAbsorbed (all : ∀ node ∈ nodes, node.Worded p) : ∀ node ∈ absorbSpaces nodes, node.Worded p := by
  fun_induction absorbSpaces nodes with
  | case1 => exact all
  | case2 _ _ _ _ _ _ _ _ _ ih | case3 _ _ _ _ _ _ _ _ ih | case4 _ _ _ _ _ _ _ ih =>
    simp only [List.forall_mem_cons] at all ⊢
    exact ⟨wordedLeaf.mpr trivial, ih (by simp_all)⟩
  | case5 node rest _ _ _ ih =>
    simp only [List.forall_mem_cons] at all ⊢
    exact ⟨all.1, ih all.2⟩

theorem spaceBeforeMem (listed : node ∈ (spaceBefore nodes).2) : node ∈ nodes := by
  unfold spaceBefore at listed
  split at listed
  · exact List.mem_cons_of_mem _ listed
  · exact listed

theorem spaceAfterMem (listed : node ∈ (spaceAfter nodes).2) : node ∈ nodes := by
  unfold spaceAfter at listed
  split at listed
  · exact List.dropLast_subset _ listed
  · exact listed

end ValueNode

section Nesting
variable {p : String → Prop} {done : List ValueNode} {calls : List OpenCall}

theorem OpenCall.finishWorded (call : OpenCall) (inside : ∀ node ∈ done, node.Worded p) (closed : Bool)
    (stop : Nat) : (call.finish done.reverse closed stop).Worded p := by
  rw [OpenCall.finishParts]
  refine ValueNode.wordedCall fun arg listed => ?_
  have absorbed := ValueNode.spaceBeforeMem (ValueNode.spaceAfterMem listed)
  exact ValueNode.wordedAbsorbed (by simpa using inside) arg absorbed

theorem closeAllWorded (size : Nat) (inside : ∀ node ∈ done, node.Worded p)
    (outside : ∀ call ∈ calls, ∀ node ∈ call.before, node.Worded p) :
    ∀ node ∈ closeAll size calls done, node.Worded p := by
  induction calls generalizing done with
  | nil => exact ValueNode.wordedAbsorbed (by simpa using inside)
  | cons call calls ih =>
    obtain ⟨own, others⟩ := List.forall_mem_cons.mp outside
    exact ih (List.forall_mem_cons.mpr ⟨call.finishWorded inside false size, own⟩) others

theorem nestCallsWorded (size : Nat) {items : List ValueItem} (closing : p ")")
    (given : ∀ node, .node node ∈ items → node.Worded p) (inside : ∀ node ∈ done, node.Worded p)
    (outside : ∀ call ∈ calls, ∀ node ∈ call.before, node.Worded p) :
    ∀ node ∈ nestCalls size items calls done, node.Worded p := by
  fun_induction nestCalls size items calls done with
  | case1 => exact closeAllWorded size inside outside
  | case2 node rest calls done ih =>
    exact ih (fun other listed => given other (List.mem_cons_of_mem _ listed))
      (List.forall_mem_cons.mpr ⟨given node List.mem_cons_self, inside⟩) outside
  | case3 name start rest calls done ih =>
    exact ih (fun other listed => given other (List.mem_cons_of_mem _ listed)) (by simp)
      (List.forall_mem_cons.mpr ⟨inside, outside⟩)
  | case4 range rest done ih =>
    exact ih (fun other listed => given other (List.mem_cons_of_mem _ listed))
      (List.forall_mem_cons.mpr ⟨ValueNode.wordedLeaf.mpr closing, inside⟩) outside
  | case5 range rest call calls done ih =>
    obtain ⟨own, others⟩ := List.forall_mem_cons.mp outside
    exact ih (fun other listed => given other (List.mem_cons_of_mem _ listed))
      (List.forall_mem_cons.mpr ⟨call.finishWorded inside true _, own⟩) others

end Nesting

theorem addressBounded (name : String) (start inside : Nat) (front text : List Char) :
    (addressCall name start inside text).Worded (Bounded (front ++ text)) := by
  refine ValueNode.wordedCall fun arg listed => ?_
  split at listed
  · cases listed
  · rw [List.mem_singleton.mp listed, ValueNode.wordedLeaf]
    intro _
    rw [String.toList_ofList]
    refine ⟨front ++ Text.leading (text.takeWhile (· != ')')),
      Text.trailing (Text.trimStart (text.takeWhile (· != ')'))) ++ text.dropWhile (· != ')'), ?_, ?_⟩
    · rw [List.append_assoc, Text.trimmedAppend, ← List.append_assoc (Text.leading _),
        Text.leadingTrimStart, List.takeWhile_append_dropWhile]
    · intro c next
      rw [Option.mem_def, List.head?_append, Option.or_eq_some_iff] at next
      rcases next with blank | ⟨-, closing⟩
      · exact ColorHint.blankEnds (Text.trailingBlank _ c (List.mem_of_mem_head? blank))
      · have stop := List.head?_dropWhile_not (· != ')') text
        rw [closing] at stop
        obtain rfl : c = ')' := by simpa using stop
        decide

theorem lexemeBounded {lexeme : Lexeme} {rest : List Lexeme} {front : List Char} {node : ValueNode}
    (item : lexeme.toItem = .node node)
    (edge : lexeme.kind = .word → ∀ c ∈ (rest.flatMap Lexeme.text).head?, Lexeme.isWordChar c = false) :
    node.Worded (Bounded (front ++ (lexeme.text ++ rest.flatMap Lexeme.text))) := by
  unfold Lexeme.toItem at item
  split at item <;> cases item <;> rw [ValueNode.wordedLeaf]
  case h_7 word =>
    intro _
    rw [String.toList_ofList]
    exact ⟨front, _, rfl, fun c next => separatorEnds (edge word c next)⟩
  all_goals trivial

theorem itemsBounded {lexemes : List Lexeme} (edged : Lexeme.Edged lexemes) (front : List Char) (skip : Nat) :
    ∀ node, .node node ∈ valueItems skip lexemes →
      node.Worded (Bounded (front ++ lexemes.flatMap Lexeme.text)) := by
  -- induction on the lexemes, with the text in front of them
  induction lexemes generalizing front skip with
  | nil => simp [valueItems]
  | cons lexeme rest ih =>
    obtain ⟨edge, edged⟩ := edged
    have later (skip : Nat) : ∀ node, .node node ∈ valueItems skip rest →
        node.Worded (Bounded (front ++ (lexeme.text ++ rest.flatMap Lexeme.text))) := by
      rw [← List.append_assoc]
      exact ih edged (front ++ lexeme.text) skip
    rw [List.flatMap_cons]
    intro node listed
    by_cases skipped : lexeme.start < skip
    · rw [valueItems.eq_def] at listed
      simp only [if_pos skipped] at listed
      exact later skip node listed
    · cases readAs lexeme rest with
      | @address opening after _ _ items =>
        rw [items skip (Nat.not_lt.mp skipped)] at listed
        rcases List.mem_cons.mp listed with own | below
        · cases own
          have bounded := addressBounded (.ofList lexeme.text) lexeme.start opening.stop
            (front ++ (lexeme.text ++ opening.text)) (after.flatMap Lexeme.text)
          simpa [addressNode] using bounded
        · exact later _ node below
      | call _ _ items =>
        rw [items skip (Nat.not_lt.mp skipped)] at listed
        rcases List.mem_cons.mp listed with own | below
        · cases own
        · exact later _ node below
      | item _ items =>
        rw [items skip (Nat.not_lt.mp skipped)] at listed
        rcases List.mem_cons.mp listed with own | below
        · exact lexemeBounded own.symm edge
        · exact later _ node below

theorem parsedBounded (value : String) :
    ∀ node ∈ parseValue value, node.Worded (Bounded value.toList) := by
  have items := itemsBounded (Lexeme.lexEdged 0 value.toList) [] 0
  rw [Lexeme.lexTexts, List.nil_append] at items
  exact nestCallsWorded _ (fun sharp => by simp at sharp) items (by simp) (by simp)

/-! ## Colors -/

theorem blanksUnopened {blanks : List Char} (blank : ∀ c ∈ blanks, Text.isBlank c = true) :
    blanks.count '(' = 0 :=
  List.count_eq_zero.mpr fun listed => absurd (blank '(' listed) (by decide)

theorem nameUnopened {name : List Char} (named : ColorHint.isFunctionName name = true) : '(' ∉ name := by
  intro listed
  have lower : '(' ∈ name.map Char.toLower := List.mem_map_of_mem listed
  simp only [ColorHint.isFunctionName, Color.isName, Text.sameIgnoringCase, Bool.or_eq_true,
    beq_iff_eq] at named
  rcases named with (own | own) | (own | own) <;> simp [own] at lower

theorem digitsUnopened {digits : List Char} (hex : ∀ c ∈ digits, ColorHint.isHexDigit c = true) :
    '(' ∉ '#' :: digits := by
  intro listed
  rcases List.mem_cons.mp listed with sharp | digit
  · cases sharp
  · exact absurd (hex _ digit) (by decide)

theorem ColorText.single {shown : List Char} (color : ColorText shown) : shown.count '(' ≤ 1 := by
  cases color with
  | digits hex _ _ => simp [List.count_eq_zero.mpr (digitsUnopened hex)]
  | function named single _ =>
    simp [List.count_eq_zero.mpr (nameUnopened named), List.count_eq_zero.mpr single]

theorem colorOpensOnce {text : String} {color : Rgba} (read : Rgba.parse? text = some color) :
    text.toList.count '(' ≤ 1 := by
  obtain ⟨before, shown, after, whole, front, behind, denoted⟩ := ColorText.ofParse read
  rw [whole, List.count_append, List.count_append, blanksUnopened front, blanksUnopened behind]
  simpa using denoted.single

theorem colorArgsUnopened {name before after : String} {args : List ValueNode} {closed : Bool} {range : ByteRange}
    {color : Rgba} (read : Rgba.parse? (ValueNode.render (.call name before after args closed range)) = some color) :
    '(' ∉ (ValueNode.renderAll args).toList := by
  have once := colorOpensOnce read
  rw [ValueNode.renderCall, callText] at once
  rw [← List.count_eq_zero]
  simp only [List.count_append, List.count_cons_self] at once
  omega

theorem wordSeen {value : List Char} {word : String} {color : Rgba} (bounded : Bounded value word)
    (sharp : word.toList.head? = some '#') (read : Rgba.parse? word = some color) :
    ColorHint.occurs value = true := by
  obtain ⟨before, after, rfl, ends⟩ := bounded sharp
  obtain ⟨blanks, shown, trail, whole, front, behind, denoted⟩ := ColorText.ofParse read
  have none : blanks = [] := by
    cases blanks with
    | nil => rfl
    | cons c cs =>
      rw [whole, List.cons_append, List.head?_cons, Option.some_inj] at sharp
      rw [sharp] at front
      exact absurd (front '#' List.mem_cons_self) (by decide)
  subst none
  rw [whole, List.nil_append] at sharp ⊢
  refine ColorHint.occursBehind before (ColorHint.occursHere ?_)
  cases denoted with
  | digits hex least most =>
    rw [List.append_assoc, List.cons_append]
    refine ColorHint.hexSeen hex least most fun c next => ?_
    rw [Option.mem_def, List.head?_append, Option.or_eq_some_iff] at next
    rcases next with blank | ⟨-, next⟩
    · exact ColorHint.blankEnds (behind c (List.mem_of_mem_head? blank))
    · exact ends c next
  | @function name inner named _ _ =>
    cases name with
    | nil => cases named
    | cons c cs =>
      obtain rfl : c = '#' := by simpa using sharp
      simp [ColorHint.isFunctionName, Color.isName, Text.sameIgnoringCase] at named

theorem functionTextSeen {text : String} {color : Rgba} (read : Rgba.parse? text = some color)
    (opens : '(' ∈ text.toList) (line : '\n' ∉ text.toList) (before after : List Char) :
    ColorHint.occurs (before ++ (text.toList ++ after)) = true := by
  obtain ⟨blanks, shown, trail, whole, front, behind, denoted⟩ := ColorText.ofParse read
  rw [whole, List.mem_append, List.mem_append, not_or, not_or] at line
  cases denoted with
  | digits hex _ _ =>
    have none : text.toList.count '(' = 0 := by
      rw [whole, List.count_append, List.count_append, blanksUnopened front, blanksUnopened behind,
        List.count_eq_zero.mpr (digitsUnopened hex)]
    exact absurd opens (List.count_eq_zero.mp none)
  | @function name inner named _ _ =>
    have seen := @ColorHint.functionSeen name inner named (by simp_all) (trail ++ after)
    have here := ColorHint.occursBehind (before ++ blanks) (ColorHint.occursHere seen)
    rw [whole]
    simpa using here

namespace Laid
variable {pos : Nat} {text : List Char} {nodes : List ValueNode} {lost : List ByteRange}

theorem lostOpened (laid : Laid pos text nodes lost) (unopened : '(' ∉ (ValueNode.renderAll nodes).toList) :
    lost = [] := by
  induction laid with
  | nil => rfl
  | leaf _ _ _ ih =>
    rw [ValueNode.renderAllCons, List.mem_append, not_or] at unopened
    exact ih unopened.2
  | call =>
    rw [ValueNode.renderAllCons, ValueNode.renderCall] at unopened
    simp [callText] at unopened

theorem rendered (laid : Laid pos text nodes lost) (descend : ValueNode → Bool) :
    ∀ node ∈ ValueNode.visitAll descend nodes, '(' ∉ (ValueNode.renderAll node.args).toList →
      ∃ before after, text = before ++ (node.render.toList ++ after) ∧
        node.range = ⟨pos + byteSize before, pos + byteSize before + byteSize node.render.toList⟩ := by
  induction laid with
  | nil => simp [ValueNode.visitAll]
  | @leaf pos _ _ written rest _ _ shown _ _ ih =>
    intro node visited unopened
    rw [ValueNode.visitAllLeaf] at visited
    rcases List.mem_cons.mp visited with rfl | later
    · rw [ValueNode.renderLeaf, shown]
      exact ⟨[], rest, rfl, rfl⟩
    · obtain ⟨before, after, rfl, range⟩ := ih node later unopened
      exact ⟨written ++ before, after, by simp, by simp [range, Nat.add_assoc]⟩
  | @call pos name front back closed inner args gap rest _ _ _ inside _ ihInside ihTail =>
    intro node visited unopened
    rw [ValueNode.visitAllCall] at visited
    rcases List.mem_cons.mp visited with rfl | below
    · obtain rfl := inside.lostOpened unopened
      rw [ValueNode.renderCall, inside.spliced.uncut]
      exact ⟨[], gap ++ rest, rfl, rfl⟩
    rcases List.mem_append.mp below with nested | later
    · split at nested
      · obtain ⟨before, after, rfl, range⟩ := ihInside node nested unopened
        refine ⟨name.toList ++ '(' :: (front.toList ++ before),
          after ++ (back.toList ++ closingText closed ++ (gap ++ rest)), by simp [callText], ?_⟩
        simp only [range, byteSizeAppend, byteSizeCons, parenthesisSize, ByteRange.mk.injEq]
        omega
      · cases nested
    · obtain ⟨before, after, rfl, range⟩ := ihTail node later unopened
      exact ⟨callText name front inner back closed ++ (gap ++ before), after, by simp,
        by simp [range, Nat.add_assoc]⟩

end Laid

theorem Matcher.colorSeen (matcher : Matcher) {reference : Rgba} {value : String} {node : ValueNode}
    {descend : ValueNode → Bool} (visited : node ∈ ValueNode.visitAll descend (parseValue value))
    (hit : matcher.isColor reference node = true) :
    ColorHint.occurs value.toList = true ∨
      ∃ part, Text.slice? value.toList node.range.start node.range.stop = some part ∧ '\n' ∈ part := by
  simp only [isColor, Bool.and_eq_true, beq_iff_eq] at hit
  obtain ⟨⟨shape, -⟩, read⟩ := hit
  cases node with
  | leaf kind text range =>
    obtain ⟨top, listed, reached⟩ := ValueNode.memVisitAll.mp visited
    have words := parsedBounded value top listed descend _ reached
    cases kind with
    | word => exact .inl (wordSeen words (by simpa [isColorNode] using shape) read)
    | space | string _ _ | divider _ _ | comment _ => cases shape
  | call name before after args closed range =>
    obtain ⟨front, behind, whole, place⟩ :=
      (parsedLaid value).rendered descend _ visited (colorArgsUnopened read)
    by_cases line : '\n' ∈ (ValueNode.render (.call name before after args closed range)).toList
    · refine .inr ⟨_, ?_, line⟩
      rw [place, whole, Nat.zero_add]
      exact Text.sliceAppend front _ behind
    · rw [whole]
      exact .inl (functionTextSeen read (by simp [ValueNode.renderCall, callText]) line front behind)

/-! ## Family names -/

theorem Text.occursInMiddle (before part after : List Char) :
    occursIn part (before ++ (part ++ after)) = true := by
  by_contra absent
  have front := occursInTail (Bool.not_eq_true _ ▸ absent)
  cases part with
  | nil => cases after <;> cases front
  | cons c cs => exact Bool.false_ne_true (front.symm.trans (occursInFront (c :: cs) after (by simp)))

namespace Laid
variable {pos : Nat} {text : List Char} {nodes : List ValueNode} {lost : List ByteRange}

theorem inside {part : List ValueNode} (laid : Laid pos text nodes lost) (within : part <:+: nodes) :
    ∃ before own after missing, text = before ++ (own ++ after) ∧
      Laid (pos + byteSize before) own part missing ∧ missing ⊆ lost := by
  obtain ⟨left, right, rfl⟩ := within
  rw [List.append_assoc] at laid
  obtain ⟨before, rest, la, lb, rfl, rfl, -, behind⟩ := laid.split
  obtain ⟨own, after, lc, ld, rfl, rfl, inside, -⟩ := behind.split
  exact ⟨before, own, after, lc, rfl, inside,
    fun range missing => List.mem_append_right la (List.mem_append_left ld missing)⟩

theorem lostBehind (laid : Laid pos text nodes lost) :
    ∀ range ∈ lost, ∃ node ∈ ValueNode.visitAll (fun _ => true) nodes, node.range.stop = range.start := by
  induction laid with
  | nil => simp
  | leaf _ _ _ ih =>
    intro range missing
    obtain ⟨node, visited, place⟩ := ih range missing
    rw [ValueNode.visitAllLeaf]
    exact ⟨node, List.mem_cons_of_mem _ visited, place⟩
  | call _ _ ihInside ihTail =>
    intro range missing
    rw [ValueNode.visitAllCall, if_pos rfl]
    rcases List.mem_append.mp missing with within | behind
    · obtain ⟨node, visited, place⟩ := ihInside range within
      exact ⟨node, List.mem_cons_of_mem _ (List.mem_append_left _ visited), place⟩
    rcases List.mem_append.mp behind with here | later
    · rw [gapAt] at here
      split at here
      · cases here
      · rw [List.mem_singleton.mp here]
        exact ⟨_, List.mem_cons_self, rfl⟩
    · obtain ⟨node, visited, place⟩ := ihTail range later
      exact ⟨node, List.mem_cons_of_mem _ (List.mem_append_right _ visited), place⟩

end Laid

namespace ValueNode

def isString : ValueNode → Bool
  | .leaf (.string _ _) _ _ => true
  | _ => false

def PartlyQuoted (group : List ValueNode) : Prop :=
  (∃ node ∈ visitAll (fun _ => true) group, node.isString = true) ∧
    ∀ node, group = [node] → node.isString = false

def Lossy (value : String) (group : List ValueNode) : Prop :=
  ∃ node ∈ visitAll (fun _ => true) group, ∃ range ∈ overruns 0 (Lexeme.lex 0 value.toList),
    node.range.stop = range.start

theorem groupsInside (div : String) (nodes : List ValueNode) :
    ∃ first more, groups div nodes = first :: more ∧ first <+: nodes ∧ ∀ group ∈ more, group <:+: nodes := by
  induction nodes with
  | nil => exact ⟨[], [], rfl, List.nil_prefix, by simp⟩
  | cons node rest ih =>
    obtain ⟨first, more, cut, front, others⟩ := ih
    have later : rest <:+: node :: rest := (List.suffix_cons node rest).isInfix
    rw [groups, cut]
    split
    · refine ⟨[], first :: more, rfl, List.nil_prefix, List.forall_mem_cons.mpr ⟨front.isInfix.trans later, ?_⟩⟩
      exact fun group listed => (others group listed).trans later
    · exact ⟨node :: first, more, rfl, (List.prefix_cons_inj node).mpr front,
        fun group listed => (others group listed).trans later⟩

theorem splitInside {div : String} {nodes group : List ValueNode} (listed : group ∈ splitOnDivider div nodes) :
    group <:+: nodes := by
  obtain ⟨whole, cut, rfl⟩ := List.mem_map.mp listed
  obtain ⟨left, right, trimmed⟩ := trimmedWithin whole
  have part : trimSpaces whole <:+: whole := ⟨left, right, by rw [List.append_assoc, ← trimmed]⟩
  refine part.trans ?_
  obtain ⟨first, more, groups, front, others⟩ := groupsInside div nodes
  rw [groups] at cut
  rcases List.mem_cons.mp cut with rfl | later
  · exact front.isInfix
  · exact others whole later

end ValueNode

theorem Laid.unquoted {pos : Nat} {text : List Char} {nodes : List ValueNode} {lost : List ByteRange}
    (laid : Laid pos text nodes lost)
    (plain : ∀ node ∈ ValueNode.visitAll (fun _ => true) nodes, node.isString = false) :
    ValueNode.unquoteAll nodes = ValueNode.renderAll nodes := by
  induction laid with
  | nil => rfl
  | @leaf _ kind own _ _ nodes _ _ _ _ ih =>
    rw [ValueNode.visitAllLeaf, List.forall_mem_cons] at plain
    have same : kind.unquoted own = kind.written own := by
      cases kind with
      | string _ _ => cases plain.1
      | word | space | divider _ _ | comment _ => rfl
    have rest := ih plain.2
    simp only [ValueNode.unquoteAll, ValueNode.renderAll] at rest ⊢
    simp only [ValueNode.renderAllWith, ValueNode.renderWith, same, rest]
  | call _ _ ihInside ihTail =>
    rw [ValueNode.visitAllCall, List.forall_mem_cons, if_pos rfl, List.forall_mem_append] at plain
    have args := ihInside plain.2.1
    have rest := ihTail plain.2.2
    simp only [ValueNode.unquoteAll, ValueNode.renderAll] at args rest ⊢
    simp only [ValueNode.renderAllWith, ValueNode.renderWith, args, rest]

theorem familySeen {value : String} {group : List ValueNode}
    (listed : group ∈ ValueNode.splitOnDivider "," (parseValue value))
    (kept : ¬ ValueNode.Lossy value group) (entire : ¬ ValueNode.PartlyQuoted group) :
    Text.occursIn (ValueNode.unquoteAll group).toList value.toList = true := by
  obtain ⟨before, own, after, missing, text, laid, lost⟩ :=
    (parsedLaid value).inside (ValueNode.splitInside listed)
  obtain rfl : missing = [] := by
    refine List.eq_nil_iff_forall_not_mem.mpr fun range inside => kept ?_
    obtain ⟨node, visited, place⟩ := laid.lostBehind range inside
    exact ⟨node, visited, range, lost inside, place⟩
  rw [text]
  by_cases plain : ∀ node ∈ ValueNode.visitAll (fun _ => true) group, node.isString = false
  · rw [laid.unquoted plain, laid.spliced.uncut]
    exact Text.occursInMiddle before own after
  · obtain ⟨node, rfl, quoted⟩ : ∃ node, group = [node] ∧ node.isString = true := by
      simpa [ValueNode.PartlyQuoted] using fun strings => entire ⟨by simpa using plain, strings⟩
    cases node with
    | call => cases quoted
    | leaf kind name range =>
      cases kind with
      | word | space | divider _ _ | comment _ => cases quoted
      | string quote closed =>
        obtain ⟨rest, rfl, -, -, -⟩ := laid.leafCases
        have bare : (ValueNode.unquoteAll [.leaf (.string quote closed) name range]).toList = name.toList := by
          simp [ValueNode.unquoteAll, ValueNode.renderAllWith, ValueNode.renderWith, LeafKind.unquoted]
        rw [bare]
        have seen := Text.occursInMiddle (before ++ [quote]) name.toList
          ((if closed then quote.toString else "").toList ++ (rest ++ after))
        simpa [LeafKind.written] using seen

/-! ## The quick check -/

namespace Matcher

/- What the quick check may fail to see of the ranges in a value. -/
def Overlooked (matcher : Matcher) (value : String) (ranges : List ByteRange) : Prop :=
  match matcher.strategy with
  | .word => False
  | .color _ => ∀ range ∈ ranges, ∃ part,
      Text.slice? value.toList range.start range.stop = some part ∧ '\n' ∈ part
  | .familyName => ∀ group ∈ ValueNode.splitOnDivider "," (parseValue value),
      ValueNode.unquoteAll group = matcher.key →
        ValueNode.PartlyQuoted group ∨ ValueNode.Lossy value group

theorem executeUnlessOverlooked (matcher : Matcher) (value : String) (ranges : List ByteRange)
    (located : matcher.locate (parseValue value) = some ranges) :
    matcher.execute value = ranges ∨
      matcher.test value = false ∧ matcher.execute value = [] ∧ matcher.Overlooked value ranges := by
  cases seen : matcher.test value with
  | true =>
    rw [execute, if_pos seen, located]
    exact .inl rfl
  | false =>
    refine .inr ⟨rfl, by rw [execute, seen]; rfl, ?_⟩
    unfold locate at located
    unfold test at seen
    unfold Overlooked
    cases kind : matcher.strategy with
    | word => simp [kind] at located
    | color reference =>
      simp only [kind, Option.some_inj] at located seen
      subst located
      intro range listed
      obtain ⟨node, hit, rfl⟩ := List.mem_map.mp listed
      obtain ⟨visited, hit⟩ := List.mem_filter.mp hit
      rcases matcher.colorSeen visited hit with visible | broken
      · exact absurd (visible.symm.trans seen) (by simp)
      · exact broken
    | familyName =>
      simp only [kind] at seen
      intro group listed named
      by_contra none
      obtain ⟨entire, kept⟩ := not_or.mp none
      have visible := familySeen listed kept entire
      rw [named] at visible
      exact absurd (visible.symm.trans seen) (by simp)

def blackMatcher : Matcher := ⟨"#000", .color ⟨0, 0, 0, 255⟩, none, some "$black", []⟩

def familyMatcher (key : String) : Matcher := ⟨key, .familyName, none, some "$font", []⟩

theorem executeDigitsAndFunction :
    blackMatcher.locate (parseValue "rgb(none\nnone none) #000f") = some [⟨0, 19⟩, ⟨20, 25⟩] ∧
      blackMatcher.execute "rgb(none\nnone none) #000f" = [⟨0, 19⟩, ⟨20, 25⟩] := by
  have located : blackMatcher.locate (parseValue "rgb(none\nnone none) #000f") =
      some [⟨0, 19⟩, ⟨20, 25⟩] := by decide +kernel
  have seen : blackMatcher.test "rgb(none\nnone none) #000f" = true := by decide +kernel
  rcases executeUnlessOverlooked blackMatcher _ _ located with found | ⟨hidden, -⟩
  · exact ⟨located, found⟩
  · exact absurd (seen.symm.trans hidden) (by simp)

/- A function over two lines, a name that is quoted in part, and one that is not in the text because a string
begins inside of an address. -/
theorem quickCheckHidesMatches :
    (blackMatcher.locate (parseValue "rgb(none\nnone none)") = some [⟨0, 19⟩] ∧
      blackMatcher.test "rgb(none\nnone none)" = false ∧
      blackMatcher.execute "rgb(none\nnone none)" = []) ∧
    ((familyMatcher "A B").locate (parseValue "'A' B") = some [⟨0, 5⟩] ∧
      (familyMatcher "A B").test "'A' B" = false ∧ (familyMatcher "A B").execute "'A' B" = []) ∧
    ((familyMatcher "url(a\"b)d").locate (parseValue "url(a\"b)c\"d") = some [⟨0, 11⟩] ∧
      (familyMatcher "url(a\"b)d").test "url(a\"b)c\"d" = false ∧
      (familyMatcher "url(a\"b)d").execute "url(a\"b)c\"d" = []) := by
  decide +kernel

end Matcher
end SheetLint
