import SheetLint.Proofs.Splicing
import SheetLint.Proofs.ValueReading

/-! What the ranges of a value's nodes say about its text. Without an address call the nodes tile the text,
at every depth, and each is rendered as the text in its range. With address calls the rendered text is the
value without what strings and comments lose behind them. -/
namespace SheetLint
open Text (byteSize byteSizeCons byteSizeAppend occursIn)

def Tiled (start : Nat) : List ValueNode → Nat → Prop
  | [], stop => start = stop
  | node :: rest, stop =>
    node.range.start = start ∧ start < node.range.stop ∧ Tiled node.range.stop rest stop

instance tiledDecidable : (start : Nat) → (nodes : List ValueNode) → (stop : Nat) →
    Decidable (Tiled start nodes stop)
  | start, [], stop => inferInstanceAs (Decidable (start = stop))
  | start, node :: rest, stop =>
    have := tiledDecidable node.range.stop rest stop
    inferInstanceAs (Decidable (node.range.start = start ∧ start < node.range.stop ∧
      Tiled node.range.stop rest stop))

def ValueNode.Exact : ValueNode → Prop
  | .leaf .. => True
  | .call name before after args closed range =>
    ∃ stop, Tiled (range.start + byteSize name.toList + 1 + byteSize before.toList) args stop ∧
      range.stop = stop + byteSize after.toList + byteSize (closingText closed)

/-! ## Rendered text -/

namespace ValueNode

theorem renderLeaf (kind : LeafKind) (text : String) (range : ByteRange) :
    render (.leaf kind text range) = kind.written text := rfl

theorem renderCall (name before after : String) (args : List ValueNode) (closed : Bool) (range : ByteRange) :
    (render (.call name before after args closed range)).toList =
      callText name before (renderAll args).toList after closed := by
  cases closed <;> simp [render, renderWith, renderAll, callText, closingText]

theorem renderAllCons (node : ValueNode) (rest : List ValueNode) :
    (renderAll (node :: rest)).toList = node.render.toList ++ (renderAll rest).toList := by
  simp [renderAll, renderAllWith, render]

theorem visitAllLeaf (descend : ValueNode → Bool) (kind : LeafKind) (text : String) (range : ByteRange)
    (rest : List ValueNode) :
    visitAll descend (.leaf kind text range :: rest) = .leaf kind text range :: visitAll descend rest := rfl

theorem visitAllCall (descend : ValueNode → Bool) (name before after : String) (args : List ValueNode)
    (closed : Bool) (range : ByteRange) (rest : List ValueNode) :
    visitAll descend (.call name before after args closed range :: rest) =
      .call name before after args closed range ::
        ((if descend (.call name before after args closed range) then visitAll descend args else []) ++
          visitAll descend rest) := rfl

end ValueNode

namespace Spliced
variable {f : List Char → List Char} {pos : Nat} {inner out gap : List Char} {ranges : List ByteRange}

theorem inCall {name before : String} (after : String) (closed : Bool)
    (inside : Spliced f (pos + byteSize name.toList + 1 + byteSize before.toList) inner ranges out) :
    Spliced f pos (callText name before inner after closed) ranges
      (callText name before out after closed) := by
  have size : pos + byteSize name.toList + 1 + byteSize before.toList =
      pos + byteSize (name.toList ++ '(' :: before.toList) := by
    simp only [byteSizeAppend, byteSizeCons, parenthesisSize]
    omega
  rw [size] at inside
  have whole := (inside.before (after.toList ++ closingText closed)).behind
  simpa [callText] using whole

theorem removed : Spliced (fun _ => []) pos gap (gapAt pos gap) [] := by
  by_cases none : gap = []
  · rw [none]
    exact .done
  · have cut : Spliced (fun _ => []) pos ([] ++ (gap ++ [])) _ ([] ++ ([] ++ [])) := .cut .done
    simpa [gapAt, none] using cut

end Spliced

namespace Laid
variable {pos : Nat} {text : List Char} {nodes : List ValueNode} {lost : List ByteRange}

theorem spliced (laid : Laid pos text nodes lost) :
    Spliced (fun _ => []) pos text lost (ValueNode.renderAll nodes).toList := by
  induction laid with
  | nil => exact .done
  | leaf shown _ _ ih =>
    rw [ValueNode.renderAllCons, ValueNode.renderLeaf, shown]
    exact ih.behind _
  | @call pos name before after closed inner args gap rest nodes lost more _ _ inside tail =>
    rw [ValueNode.renderAllCons, ValueNode.renderCall]
    have behind := Spliced.removed.append tail
    exact (inside.inCall after closed).append behind

/-! ## Without losses -/

theorem tiled (laid : Laid pos text nodes lost) (whole : lost = []) :
    Tiled pos nodes (pos + byteSize text) := by
  induction laid with
  | nil => rfl
  | leaf _ visible _ ih =>
    have := Text.byteSizePos visible
    rw [byteSizeAppend, ← Nat.add_assoc]
    exact ⟨rfl, by simp only [ValueNode.range]; omega, ih whole⟩
  | call _ _ _ ih =>
    simp only [List.append_eq_nil_iff, gapNone] at whole
    obtain ⟨-, rfl, none⟩ := whole
    rw [byteSizeAppend, ← Nat.add_assoc]
    refine ⟨rfl, by simp only [ValueNode.range, callTextSize]; omega, ?_⟩
    simpa [ValueNode.range] using ih none

theorem placed (laid : Laid pos text nodes lost) (whole : lost = []) :
    ∀ node ∈ ValueNode.visitAll (fun _ => true) nodes, node.Exact ∧
      ∃ before after, text = before ++ (node.render.toList ++ after) ∧
        node.range = ⟨pos + byteSize before, pos + byteSize before + byteSize node.render.toList⟩ := by
  induction laid with
  | nil => simp [ValueNode.visitAll]
  | @leaf pos _ _ written rest _ _ shown _ _ ih =>
    intro node visited
    rw [ValueNode.visitAllLeaf] at visited
    rcases List.mem_cons.mp visited with rfl | later
    · rw [ValueNode.renderLeaf, shown]
      exact ⟨trivial, [], rest, rfl, rfl⟩
    · obtain ⟨exact, before, after, rfl, range⟩ := ih whole node later
      exact ⟨exact, written ++ before, after, by simp, by simp [range, Nat.add_assoc]⟩
  | @call pos name front back closed inner args gap rest _ _ _ inside _ ihInside ihTail =>
    simp only [List.append_eq_nil_iff, gapNone] at whole
    obtain ⟨rfl, rfl, rfl⟩ := whole
    intro node visited
    rw [ValueNode.visitAllCall, if_pos rfl] at visited
    rcases List.mem_cons.mp visited with rfl | below
    · rw [ValueNode.renderCall, inside.spliced.uncut]
      refine ⟨⟨_, inside.tiled rfl, ?_⟩, [], rest, rfl, rfl⟩
      simp only [callTextSize]
      omega
    rcases List.mem_append.mp below with nested | later
    · obtain ⟨exact, before, after, rfl, range⟩ := ihInside rfl node nested
      refine ⟨exact, name.toList ++ '(' :: (front.toList ++ before),
        after ++ (back.toList ++ closingText closed ++ rest), by simp [callText], ?_⟩
      simp only [range, byteSizeAppend, byteSizeCons, parenthesisSize, ByteRange.mk.injEq]
      omega
    · obtain ⟨exact, before, after, rfl, range⟩ := ihTail rfl node later
      exact ⟨exact, callText name front inner back closed ++ before, after, by simp,
        by simp [range, Nat.add_assoc]⟩

end Laid

/-! ## Whole values -/

theorem Text.occursInTail {part a b : List Char} (absent : occursIn part (a ++ b) = false) :
    occursIn part b = false := by
  induction a with
  | nil => exact absent
  | cons c cs ih => exact ih (Bool.or_eq_false_iff.mp absent).2

theorem Text.occursInFront (part b : List Char) (visible : part ≠ []) : occursIn part (part ++ b) = true := by
  cases part with
  | nil => exact absurd rfl visible
  | cons c cs => simp [occursIn]

theorem overrunsNone {pos : Nat} {lexemes : List Lexeme} (chained : Lexeme.Chained pos lexemes)
    (absent : occursIn "url(".toList ((lexemes.flatMap Lexeme.text).map Char.toLower) = false) :
    overruns 0 lexemes = [] := by
  induction lexemes generalizing pos with
  | nil => rfl
  | cons lexeme rest ih =>
    have tail := chained.2.2
    rw [List.flatMap_cons, List.map_append] at absent
    have none : addressEnd? lexeme rest = none := by
      cases rest with
      | nil => rfl
      | cons opening after =>
        rw [addressEnd?]
        split
        · next address =>
          simp only [Bool.and_eq_true, decide_eq_true_eq, Text.sameIgnoringCase, beq_iff_eq] at address
          obtain ⟨⟨⟨-, opens⟩, name⟩, -⟩ := address
          rw [List.flatMap_cons, name, (openingAt opens tail).1] at absent
          exact absurd absent (by
            have := Text.occursInFront "url(".toList ((after.flatMap Lexeme.text).map Char.toLower) (by decide)
            simpa using this)
        · rfl
    rw [overruns, if_neg (Nat.not_lt_zero _), none]
    exact ih tail (Text.occursInTail absent)

theorem overrunsSome {value : String} {range : ByteRange}
    (lost : range ∈ overruns 0 (Lexeme.lex 0 value.toList)) : range.start < range.stop := by
  obtain ⟨lexeme, -, -, front, behind, text, some, rfl⟩ :=
    overrunsInside (Lexeme.lexChained 0 value.toList) (.inl (Nat.le_refl 0)) range lost
  have := Text.byteSizePos some
  simp only [Lexeme.stop, text, byteSizeAppend, byteSizeCons, parenthesisSize]
  omega

theorem nodesTileValue (value : String)
    (plain : occursIn "url(".toList (value.toList.map Char.toLower) = false) :
    Tiled 0 (parseValue value) (byteSize value.toList) ∧
    (∀ node ∈ ValueNode.visitAll (fun _ => true) (parseValue value),
      node.Exact ∧ Text.slice? value.toList node.range.start node.range.stop = some node.render.toList) ∧
    ValueNode.renderAll (parseValue value) = value := by
  have none : overruns 0 (Lexeme.lex 0 value.toList) = [] :=
    overrunsNone (Lexeme.lexChained 0 value.toList) (by rwa [Lexeme.lexTexts])
  have laid := none ▸ parsedLaid value
  refine ⟨by simpa using laid.tiled rfl, ?_, String.toList_inj.mp laid.spliced.uncut⟩
  intro node visited
  obtain ⟨exact, before, after, whole, range⟩ := laid.placed rfl node visited
  refine ⟨exact, ?_⟩
  rw [range, whole, Nat.zero_add]
  exact Text.sliceAppend before _ after

def unbalancedValue : String := ") g(é , \"(\" / (b /*c)"

theorem nodesTileUnbalanced :
    occursIn "url(".toList (unbalancedValue.toList.map Char.toLower) = false ∧
    Tiled 0 (parseValue unbalancedValue) 22 ∧
    (∃ node ∈ ValueNode.visitAll (fun _ => true) (parseValue unbalancedValue), node.range = ⟨15, 22⟩ ∧
      node.Exact ∧ Text.slice? unbalancedValue.toList 15 22 = some node.render.toList) ∧
    ValueNode.renderAll (parseValue unbalancedValue) = unbalancedValue := by
  have plain : occursIn "url(".toList (unbalancedValue.toList.map Char.toLower) = false := by decide +kernel
  obtain ⟨tiled, placed, rendered⟩ := nodesTileValue unbalancedValue plain
  have found : ((ValueNode.visitAll (fun _ => true) (parseValue unbalancedValue)).any
      fun node => node.range = ⟨15, 22⟩) = true := by decide +kernel
  obtain ⟨node, visited, range⟩ := List.any_eq_true.mp found
  obtain ⟨exact, sliced⟩ := placed node visited
  rw [of_decide_eq_true range] at sliced
  exact ⟨plain, tiled, ⟨node, visited, of_decide_eq_true range, exact, sliced⟩, rendered⟩

theorem renderedWithoutOverruns (value : String) :
    Spliced (fun _ => []) 0 value.toList (overruns 0 (Lexeme.lex 0 value.toList))
      (ValueNode.renderAll (parseValue value)).toList ∧
    (∀ range ∈ overruns 0 (Lexeme.lex 0 value.toList),
      ∃ lexeme ∈ Lexeme.lex 0 value.toList, lexeme.Overrun range) ∧
    (Tiled 0 (parseValue value) (byteSize value.toList) ∧ ValueNode.renderAll (parseValue value) = value ↔
      overruns 0 (Lexeme.lex 0 value.toList) = []) := by
  have laid := parsedLaid value
  refine ⟨laid.spliced, overrunsInside (Lexeme.lexChained 0 value.toList) (.inl (Nat.le_refl 0)), ?_, ?_⟩
  · rintro ⟨-, same⟩
    have shorter := laid.spliced.shorter fun range lost => overrunsSome lost
    rw [same] at shorter
    exact List.length_eq_zero_iff.mp (by omega)
  · intro none
    have whole := none ▸ laid
    exact ⟨by simpa using whole.tiled rfl, String.toList_inj.mp whole.spliced.uncut⟩

theorem quotedAddressLosesText :
    ¬ Tiled 0 (parseValue "url(a'b)c') x") (byteSize "url(a'b)c') x".toList) ∧
      ValueNode.renderAll (parseValue "url(a'b)c') x") = "url(a'b)) x" := by
  decide +kernel

end SheetLint
