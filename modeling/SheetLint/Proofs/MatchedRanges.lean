import SheetLint.Magic.Rule
import SheetLint.Proofs.ValueRanges

/-! Where matchers find their value. Colors are found on a walk that does not enter what it has found,
family names between the commas of a list, and a word counts for the whole value: in each case the ranges
follow each other in the text, so that all of them can be replaced. -/
namespace SheetLint
open Text (byteSize byteSizeNil byteSizeAppend)

/- Ranges that are not empty and at which the text can be cut from left to right. -/
structure Cuts (pos : Nat) (text : List Char) (ranges : List ByteRange) : Prop where
  visible : ∀ range ∈ ranges, range.start < range.stop
  spliced : ∀ f, ∃ out, Spliced f pos text ranges out

namespace Cuts
variable {pos : Nat} {text a b : List Char} {ranges xs ys : List ByteRange}

theorem nil : Cuts pos text [] := ⟨by simp, fun _ => ⟨text, .done⟩⟩

theorem append (first : Cuts pos a xs) (second : Cuts (pos + byteSize a) b ys) :
    Cuts pos (a ++ b) (xs ++ ys) := by
  refine ⟨List.forall_mem_append.mpr ⟨first.visible, second.visible⟩, fun f => ?_⟩
  obtain ⟨left, before⟩ := first.spliced f
  obtain ⟨right, behind⟩ := second.spliced f
  exact ⟨left ++ right, before.append behind⟩

theorem behind (a : List Char) (cuts : Cuts (pos + byteSize a) b ranges) : Cuts pos (a ++ b) ranges := by
  simpa using (nil : Cuts pos a []).append cuts

theorem before (cuts : Cuts pos a ranges) (b : List Char) : Cuts pos (a ++ b) ranges := by
  simpa using cuts.append (nil : Cuts _ b [])

theorem whole (visible : text ≠ []) : Cuts pos text [⟨pos, pos + byteSize text⟩] := by
  refine ⟨by simpa using Text.byteSizePos visible, fun f => ⟨f text, ?_⟩⟩
  simpa using (Spliced.cut .done : Spliced f pos ([] ++ (text ++ [])) _ _)

theorem inCall {name before : String} (after : String) (closed : Bool)
    (inside : Cuts (pos + byteSize name.toList + 1 + byteSize before.toList) text ranges) :
    Cuts pos (callText name before text after closed) ranges := by
  refine ⟨inside.visible, fun f => ?_⟩
  obtain ⟨out, spliced⟩ := inside.spliced f
  exact ⟨_, spliced.inCall after closed⟩

theorem ascending (cuts : Cuts pos text ranges) :
    ranges.Pairwise fun left right => left.start < right.start := by
  obtain ⟨_, spliced⟩ := cuts.spliced fun part => part
  exact spliced.apart.imp_of_mem fun left _ apart => Nat.lt_of_lt_of_le (cuts.visible _ left) apart

end Cuts

/-! ## Colors -/

theorem callTextVisible (name before : String) (inner : List Char) (after : String) (closed : Bool) :
    callText name before inner after closed ≠ [] := by
  simp [callText]

theorem Laid.hits {pos : Nat} {text : List Char} {nodes : List ValueNode} {lost : List ByteRange}
    (laid : Laid pos text nodes lost) (isHit : ValueNode → Bool) :
    Cuts pos text (((ValueNode.visitAll (fun node => !isHit node) nodes).filter isHit).map
      ValueNode.range) := by
  induction laid with
  | nil => exact .nil
  | @leaf pos kind own written rest nodes lost _ visible _ ih =>
    rw [ValueNode.visitAllLeaf, List.filter_cons]
    split
    · exact (Cuts.whole visible).append ih
    · exact ih.behind written
  | @call pos name before after closed inner args gap rest nodes lost more _ _ inside tail =>
    rw [ValueNode.visitAllCall, List.filter_cons]
    split
    · next hit =>
      rw [hit]
      exact (Cuts.whole (callTextVisible _ _ _ _ _)).append (tail.behind gap)
    · next other =>
      rw [Bool.not_eq_true] at other
      rw [other, Bool.not_false, if_pos rfl, List.filter_append, List.map_append]
      exact (inside.inCall after closed).append (tail.behind gap)

/-! ## Groups between dividers -/

theorem ValueNode.trimmedWithin (nodes : List ValueNode) :
    ∃ left right, nodes = left ++ (trimSpaces nodes ++ right) := by
  refine ⟨nodes.takeWhile isSpace, ((nodes.dropWhile isSpace).reverse.takeWhile isSpace).reverse, ?_⟩
  rw [trimSpaces, ← List.reverse_append, List.takeWhile_append_dropWhile, List.reverse_reverse,
    List.takeWhile_append_dropWhile]

namespace Laid
variable {pos : Nat} {text : List Char} {nodes : List ValueNode} {lost : List ByteRange}

theorem startsFirst {node : ValueNode} (laid : Laid pos text (node :: nodes) lost) :
    node.range.start = pos := by
  cases laid <;> rfl

theorem alone {node : ValueNode} (laid : Laid pos text [node] lost) :
    ∃ written gap, text = written ++ gap ∧ written ≠ [] ∧ node.range.stop = pos + byteSize written := by
  cases laid with
  | leaf _ visible _ => exact ⟨_, _, rfl, visible, rfl⟩
  | call _ _ => exact ⟨_, _, rfl, callTextVisible _ _ _ _ _, rfl⟩

theorem groupCuts (laid : Laid pos text nodes lost) : Cuts pos text (Matcher.groupRange? nodes).toList := by
  unfold Matcher.groupRange?
  split
  · next first last starts ends =>
    obtain ⟨more, rfl⟩ := List.head?_eq_some_iff.mp starts
    obtain ⟨others, whole⟩ := List.getLast?_eq_some_iff.mp ends
    have start := laid.startsFirst
    rw [whole] at laid
    obtain ⟨front, back, la, lb, rfl, rfl, -, behind⟩ := laid.split
    obtain ⟨written, gap, rfl, visible, stop⟩ := behind.alone
    have cut : Cuts pos (front ++ written) [⟨pos, pos + byteSize (front ++ written)⟩] :=
      .whole (by simp [visible])
    rw [start, stop]
    simpa [Nat.add_assoc] using cut.before gap
  · exact .nil

theorem trimmedCuts (laid : Laid pos text nodes lost) :
    Cuts pos text (Matcher.groupRange? (ValueNode.trimSpaces nodes)).toList := by
  obtain ⟨left, right, whole⟩ := ValueNode.trimmedWithin nodes
  rw [whole] at laid
  obtain ⟨a, b, la, lb, rfl, rfl, -, behind⟩ := laid.split
  obtain ⟨c, d, lc, ld, rfl, rfl, inside, -⟩ := behind.split
  exact (inside.groupCuts.before d).behind a

theorem groupsCuts {ranges : List ValueNode → List ByteRange}
    (cuts : ∀ {pos text nodes lost}, Laid pos text nodes lost → Cuts pos text (ranges nodes)) (div : String)
    (laid : Laid pos text nodes lost) :
    ∃ group more a b first, ValueNode.groups div nodes = group :: more ∧ text = a ++ b ∧
      Laid pos a group first ∧ Cuts (pos + byteSize a) b (more.flatMap ranges) := by
  -- induction on the nodes, with the first group apart: it is still laid out, those behind it are cut
  induction nodes generalizing pos text lost with
  | nil =>
    obtain ⟨rfl, rfl⟩ := laid.nilCases
    exact ⟨[], [], [], [], [], rfl, rfl, .nil, .nil⟩
  | cons node rest ih =>
    obtain ⟨own, others, lo, lr, rfl, rfl, alone, behind⟩ := @split pos text [node] rest lost laid
    obtain ⟨group, more, a, b, first, groups, rfl, inside, further⟩ := ih behind
    rw [ValueNode.groups, groups]
    split
    · refine ⟨[], group :: more, [], _, [], rfl, rfl, .nil, ?_⟩
      rw [List.flatMap_cons, byteSizeNil, Nat.add_zero]
      exact ((cuts inside).append further).behind own
    · refine ⟨node :: group, more, own ++ a, b, _, rfl, by simp, alone.append inside, ?_⟩
      rwa [byteSizeAppend, ← Nat.add_assoc]

end Laid

/-! ## All matchers -/

namespace Matcher

def familyRanges (matcher : Matcher) (group : List ValueNode) : List ByteRange :=
  if ValueNode.unquoteAll (ValueNode.trimSpaces group) = matcher.key then
    (groupRange? (ValueNode.trimSpaces group)).toList
  else []

theorem locateFamilyGroups (matcher : Matcher) (nodes : List ValueNode) :
    matcher.locateFamily nodes = (ValueNode.groups "," nodes).flatMap matcher.familyRanges := by
  rw [locateFamily, ValueNode.splitOnDivider]
  induction ValueNode.groups "," nodes with
  | nil => rfl
  | cons group more ih =>
    rw [List.map_cons, List.filter_cons, List.flatMap_cons, familyRanges, ← ih]
    by_cases named : ValueNode.unquoteAll (ValueNode.trimSpaces group) = matcher.key
    · rw [if_pos named, if_pos (by simpa using named), List.filterMap_cons]
      cases groupRange? (ValueNode.trimSpaces group) <;> rfl
    · rw [if_neg named, if_neg (by simpa using named), List.nil_append]

theorem familyCuts (matcher : Matcher) {pos : Nat} {text : List Char} {nodes : List ValueNode}
    {lost : List ByteRange} (laid : Laid pos text nodes lost) :
    Cuts pos text (matcher.locateFamily nodes) := by
  have own {pos text nodes lost} (laid : Laid pos text nodes lost) :
      Cuts pos text (matcher.familyRanges nodes) := by
    unfold familyRanges
    split
    · exact laid.trimmedCuts
    · exact .nil
  obtain ⟨group, more, a, b, _, groups, rfl, first, others⟩ := laid.groupsCuts own ","
  rw [locateFamilyGroups, groups, List.flatMap_cons]
  exact (own first).append others

theorem executeCuts (matcher : Matcher) (value : String) (engine : Engine) :
    Cuts 0 value.toList (matcher.execute value engine) ∨
      value = "" ∧ matcher.execute value engine = [⟨0, 0⟩] := by
  have laid := parsedLaid value
  unfold execute
  split
  · unfold locate
    split
    · by_cases empty : value = ""
      · exact .inr ⟨empty, by simp [empty]⟩
      · refine .inl ?_
        simpa using (Cuts.whole (by simpa using empty) : Cuts 0 value.toList _)
    · exact .inl (laid.hits _)
    · exact .inl (matcher.familyCuts laid)
  · exact .inl .nil

theorem executeSpliced (matcher : Matcher) (value : String) (engine : Engine) (f : List Char → List Char) :
    ∃ out, Spliced f 0 value.toList (matcher.execute value engine) out := by
  rcases matcher.executeCuts value engine with cuts | ⟨rfl, ranges⟩
  · exact cuts.spliced f
  · rw [ranges]
    exact ⟨_, (Spliced.cut .done : Spliced f 0 ([] ++ ([] ++ [])) _ _)⟩

theorem executeAscending (matcher : Matcher) (value : String) (engine : Engine) :
    (matcher.execute value engine).Pairwise fun left right => left.start < right.start := by
  rcases matcher.executeCuts value engine with cuts | ⟨-, ranges⟩
  · exact cuts.ascending
  · rw [ranges]
    exact List.pairwise_singleton _ _

theorem executeReplaced (matcher : Matcher) (value : String) (engine : Engine) (replacer : String → String) :
    ∃ out, replaceRanges value (matcher.execute value engine) replacer = .ok out ∧
      Spliced (fun part => (replacer (.ofList part)).toList) 0 value.toList (matcher.execute value engine)
        out.toList := by
  obtain ⟨out, spliced⟩ := matcher.executeSpliced value engine fun part => (replacer (.ofList part)).toList
  exact ⟨.ofList out, replaceSpliced spliced (matcher.executeAscending value engine), by simpa using spliced⟩

theorem checkReplaces {matcher : Matcher} {value fixed prop : String} {engine : Engine} {rule : MagicRule}
    {id : NodeId} {state : MagicRule.State} {node : NodeData} (ok : matcher.fix value engine = .ok fixed)
    (own : state.sheet.get? id = some node) (parts : node.parts? = some (prop, value))
    (applies : matcher.appliesTo prop engine = true) (fixable : matcher.isFixable = true)
    (found : matcher.execute value engine ≠ []) :
    rule.check .fix id state matcher engine = state.replace id fixed matcher.uses := by
  obtain ⟨first, others, ranges⟩ := List.exists_cons_of_ne_nil found
  simp [MagicRule.check, own, parts, applies, ranges, fixable, ok]

theorem executedRangesReplaceable (engine : Engine) (matcher : Matcher) (value : String) :
    (∀ range ∈ matcher.execute value engine,
      range.start ≤ range.stop ∧ range.stop ≤ byteSize value.toList ∧
      (Text.splitAt? value.toList range.start).isSome ∧ (Text.splitAt? value.toList range.stop).isSome ∧
      (value ≠ "" → range.start < range.stop)) ∧
    (matcher.execute value engine).Pairwise (fun left right => left.stop ≤ right.start) ∧
    (∀ replacer : String → String, ∃ out,
      replaceRanges value (matcher.execute value engine) replacer = .ok out ∧
      Spliced (fun part => (replacer (.ofList part)).toList) 0 value.toList
        (matcher.execute value engine) out.toList) ∧
    ∃ fixed, matcher.fix value engine = .ok fixed ∧
      ∀ (rule : MagicRule) (id : NodeId) (state : MagicRule.State) (node : NodeData) (prop : String),
        state.sheet.get? id = some node → node.parts? = some (prop, value) →
        matcher.appliesTo prop engine = true → matcher.isFixable = true →
        matcher.execute value engine ≠ [] →
        rule.check .fix id state matcher engine = state.replace id fixed matcher.uses := by
  obtain ⟨_, spliced⟩ := matcher.executeSpliced value engine fun part => part
  refine ⟨fun range found => ?_, spliced.apart, matcher.executeReplaced value engine, ?_⟩
  · have inside := spliced.after range found
    obtain ⟨before, part, rest, whole, rfl⟩ := spliced.parts [] rfl range found
    rw [List.nil_append] at whole
    refine ⟨inside.2.1, by simpa using inside.2.2, ?_, ?_, fun visible => ?_⟩
    · rw [whole]
      exact Text.splitSome before _
    · rw [whole, ← List.append_assoc, ← byteSizeAppend]
      exact Text.splitSome (before ++ part) rest
    · rcases matcher.executeCuts value engine with cuts | ⟨empty, -⟩
      · exact cuts.visible _ found
      · exact absurd empty visible
  · obtain ⟨fixed, ok, -⟩ := matcher.executeReplaced value engine fun part => (matcher.replace part engine).getD part
    exact ⟨fixed, ok, fun _ _ _ _ _ => checkReplaces ok⟩

def redMatcher : Matcher := ⟨"#f00", .color ⟨255, 0, 0, 255⟩, none, some "$red", []⟩

def addressValue : String := "url(a'b)c') #f00, f(#F00)"

def addressSheet : Sheet := ⟨.root, .cons ⟨1, .declaration "background" addressValue⟩ .nil .nil, 2⟩

def addressState : MagicRule.State := ⟨addressSheet, .scan addressSheet, []⟩

theorem executedBehindAddress :
    redMatcher.execute addressValue = [⟨12, 16⟩, ⟨20, 24⟩] ∧
      redMatcher.fix addressValue = .ok "url(a'b)c') $red, f($red)" ∧
      MagicRule.check ⟨[redMatcher], .error⟩ .fix 1 addressState redMatcher =
        addressState.replace 1 "url(a'b)c') $red, f($red)" [] := by
  have found : redMatcher.execute addressValue = [⟨12, 16⟩, ⟨20, 24⟩] := by decide +kernel
  have computed : (redMatcher.fix addressValue).toOption = some "url(a'b)c') $red, f($red)" := by
    decide +kernel
  obtain ⟨-, -, -, fixed, ok, checked⟩ := executedRangesReplaceable .own redMatcher addressValue
  obtain rfl : fixed = "url(a'b)c') $red, f($red)" := by simpa [ok, Except.toOption] using computed
  exact ⟨found, ok, checked _ 1 addressState (.declaration "background" addressValue) "background" rfl rfl rfl
    rfl (by simp [found])⟩

end Matcher
end SheetLint
