import SheetLint.Value.Parse

/-! Where the nodes of a value stand. `Laid` says that a text is laid out in nodes one behind the other, a
call around its arguments, except for text that is lost behind a call. Giving spaces to dividers and to the
edges of calls keeps this, so the calls can be closed one by one without knowing what is in them. -/
namespace SheetLint
open Text (byteSize byteSizeNil byteSizeCons byteSizeAppend)

def closingText (closed : Bool) : List Char := if closed then [')'] else []

def callText (name before : String) (inner : List Char) (after : String) (closed : Bool) : List Char :=
  name.toList ++ '(' :: (before.toList ++ (inner ++ (after.toList ++ closingText closed)))

def gapAt (pos : Nat) (gap : List Char) : List ByteRange :=
  if gap = [] then [] else [⟨pos, pos + byteSize gap⟩]

/- The text at byte `pos` is laid out in some nodes, but for the ranges that are lost. -/
inductive Laid : Nat → List Char → List ValueNode → List ByteRange → Prop where
  | nil {pos} : Laid pos [] [] []
  | leaf {pos kind text written rest nodes lost}
      (shown : (LeafKind.written text kind).toList = written) (visible : written ≠ [])
      (tail : Laid (pos + byteSize written) rest nodes lost) :
      Laid pos (written ++ rest) (.leaf kind text ⟨pos, pos + byteSize written⟩ :: nodes) lost
  | call {pos name before after closed inner args gap rest nodes lost more}
      (inside : Laid (pos + byteSize name.toList + 1 + byteSize before.toList) inner args lost)
      (tail : Laid (pos + byteSize (callText name before inner after closed) + byteSize gap) rest nodes
        more) :
      Laid pos (callText name before inner after closed ++ (gap ++ rest))
        (.call name before after args closed
          ⟨pos, pos + byteSize (callText name before inner after closed)⟩ :: nodes)
        (lost ++ (gapAt (pos + byteSize (callText name before inner after closed)) gap ++ more))

@[simp] theorem parenthesisSize : '('.utf8Size = 1 ∧ ')'.utf8Size = 1 := by decide

@[simp] theorem gapNone {pos : Nat} {gap : List Char} : gapAt pos gap = [] ↔ gap = [] := by
  simp [gapAt]

theorem callTextSize (name before : String) (inner : List Char) (after : String) (closed : Bool) :
    byteSize (callText name before inner after closed) =
      byteSize name.toList + 1 + byteSize before.toList + byteSize inner + byteSize after.toList +
        byteSize (closingText closed) := by
  simp only [callText, byteSizeAppend, byteSizeCons, parenthesisSize]
  omega

namespace Laid
variable {pos : Nat} {text a b : List Char} {nodes xs ys : List ValueNode} {lost la lb : List ByteRange}

theorem append (first : Laid pos a xs la) (second : Laid (pos + byteSize a) b ys lb) :
    Laid pos (a ++ b) (xs ++ ys) (la ++ lb) := by
  induction first with
  | nil => simpa using second
  | leaf shown visible _ ih =>
    rw [byteSizeAppend, ← Nat.add_assoc] at second
    rw [List.append_assoc]
    exact .leaf shown visible (ih second)
  | call inside _ _ ih =>
    rw [byteSizeAppend, byteSizeAppend, ← Nat.add_assoc, ← Nat.add_assoc] at second
    simp only [List.append_assoc]
    exact .call inside (ih second)

theorem leafCases {kind : LeafKind} {own : String} {range : ByteRange}
    (laid : Laid pos text (.leaf kind own range :: nodes) lost) :
    ∃ rest, text = (kind.written own).toList ++ rest ∧ (kind.written own).toList ≠ [] ∧
      range = ⟨pos, pos + byteSize (kind.written own).toList⟩ ∧
      Laid (pos + byteSize (kind.written own).toList) rest nodes lost := by
  cases laid with
  | leaf shown visible tail =>
    subst shown
    exact ⟨_, rfl, visible, rfl, tail⟩

theorem nilCases (laid : Laid pos text [] lost) : text = [] ∧ lost = [] := by
  cases laid
  exact ⟨rfl, rfl⟩

theorem split (laid : Laid pos text (xs ++ ys) lost) :
    ∃ a b la lb, text = a ++ b ∧ lost = la ++ lb ∧ Laid pos a xs la ∧ Laid (pos + byteSize a) b ys lb := by
  induction xs generalizing pos text lost with
  | nil => exact ⟨[], text, [], lost, rfl, rfl, .nil, by simpa using laid⟩
  | cons node more ih =>
    cases laid with
    | @leaf _ _ _ written _ _ _ shown visible tail =>
      obtain ⟨a, b, la, lb, rfl, rfl, front, back⟩ := ih tail
      refine ⟨written ++ a, b, la, lb, by simp, rfl, .leaf shown visible front, ?_⟩
      rwa [byteSizeAppend, ← Nat.add_assoc]
    | @call _ name before after closed inner args gap _ _ lost _ inside tail =>
      obtain ⟨a, b, la, lb, rfl, rfl, front, back⟩ := ih tail
      refine ⟨callText name before inner after closed ++ (gap ++ a), b, _, lb, ?_, ?_, .call inside front, ?_⟩
      · simp
      · simp
      · rwa [byteSizeAppend, byteSizeAppend, ← Nat.add_assoc, ← Nat.add_assoc]

end Laid

/-! ## Spaces that others take along -/

def ValueNode.Bare : ValueNode → Prop
  | .leaf (.divider before after) _ _ => before = "" ∧ after = ""
  | _ => True

namespace Laid
variable {pos : Nat} {text : List Char} {nodes : List ValueNode} {lost : List ByteRange}

theorem joined {left right : LeafKind} {own other : String} {first last : ByteRange}
    (laid : Laid pos text (.leaf left own first :: .leaf right other last :: nodes) lost) (kind : LeafKind)
    (both : String) (shown : kind.written both = left.written own ++ right.written other) :
    Laid pos text (.leaf kind both ⟨first.start, last.stop⟩ :: nodes) lost := by
  obtain ⟨behind, rfl, visible, rfl, laid'⟩ := laid.leafCases
  obtain ⟨rest, rfl, -, rfl, tail⟩ := laid'.leafCases
  have size : pos + byteSize (left.written own).toList + byteSize (right.written other).toList =
      pos + byteSize (kind.written both).toList := by
    simp [shown, Nat.add_assoc]
  rw [size] at tail ⊢
  rw [← List.append_assoc, ← String.toList_append, ← shown]
  exact .leaf rfl (by simp_all) tail

theorem onTail {node : ValueNode} {rest rest' : List ValueNode} (laid : Laid pos text (node :: rest) lost)
    (change : ∀ {pos text lost}, Laid pos text rest lost → Laid pos text rest' lost) :
    Laid pos text (node :: rest') lost := by
  cases laid with
  | leaf shown visible tail => exact .leaf shown visible (change tail)
  | call inside tail => exact .call inside (change tail)

theorem absorbSpaces (laid : Laid pos text nodes lost) (bare : ∀ node ∈ nodes, node.Bare) :
    Laid pos text (ValueNode.absorbSpaces nodes) lost := by
  fun_induction ValueNode.absorbSpaces nodes generalizing pos text lost with
  | case1 => exact laid
  | case2 before first left right own range after last rest ih =>
    simp only [List.forall_mem_cons, ValueNode.Bare] at bare
    obtain ⟨-, ⟨rfl, rfl⟩, -, bare⟩ := bare
    have front := laid.joined (.divider before "") own (by simp [LeafKind.written])
    have whole := front.joined (.divider before after) own (by simp [LeafKind.written])
    exact whole.onTail fun tail => ih tail bare
  | case3 before first left right own range rest _ ih =>
    simp only [List.forall_mem_cons, ValueNode.Bare] at bare
    obtain ⟨-, ⟨rfl, rfl⟩, bare⟩ := bare
    have whole := laid.joined (.divider before "") own (by simp [LeafKind.written])
    exact whole.onTail fun tail => ih tail bare
  | case4 left right own range after last rest ih =>
    simp only [List.forall_mem_cons, ValueNode.Bare] at bare
    obtain ⟨⟨rfl, rfl⟩, -, bare⟩ := bare
    have whole := laid.joined (.divider "" after) own (by simp [LeafKind.written])
    exact whole.onTail fun tail => ih tail bare
  | case5 node rest _ _ _ ih =>
    exact laid.onTail fun tail => ih tail (List.forall_mem_cons.mp bare).2

theorem spaceBefore (laid : Laid pos text nodes lost) :
    ∃ rest, text = (ValueNode.spaceBefore nodes).1.toList ++ rest ∧
      Laid (pos + byteSize (ValueNode.spaceBefore nodes).1.toList) rest (ValueNode.spaceBefore nodes).2
        lost := by
  unfold ValueNode.spaceBefore
  split
  · obtain ⟨rest, whole, -, -, tail⟩ := laid.leafCases
    exact ⟨rest, whole, tail⟩
  · exact ⟨text, rfl, by simpa using laid⟩

theorem spaceAfter (laid : Laid pos text nodes lost) :
    ∃ front, text = front ++ (ValueNode.spaceAfter nodes).1.toList ∧
      Laid pos front (ValueNode.spaceAfter nodes).2 lost := by
  unfold ValueNode.spaceAfter
  split
  · next own range last =>
    obtain ⟨others, rfl⟩ := List.getLast?_eq_some_iff.mp last
    obtain ⟨front, back, la, lb, rfl, rfl, before, behind⟩ := laid.split
    obtain ⟨rest, rfl, -, -, tail⟩ := behind.leafCases
    obtain ⟨rfl, rfl⟩ := tail.nilCases
    exact ⟨front, by simp [LeafKind.written], by simpa using before⟩
  · exact ⟨text, by simp, laid⟩

end Laid

/-! ## Closing calls -/

theorem Laid.callAlone {pos stop : Nat} {name before after : String} {text inner : List Char}
    {args : List ValueNode} {closed : Bool} {lost : List ByteRange}
    (inside : Laid (pos + byteSize name.toList + 1 + byteSize before.toList) inner args lost)
    (written : text = callText name before inner after closed) (size : stop = pos + byteSize text)
    (gap : List Char) :
    Laid pos (text ++ gap) [.call name before after args closed ⟨pos, stop⟩] (lost ++ gapAt stop gap) := by
  subst size written
  have laid := @Laid.call pos name before after closed inner args gap [] [] lost [] inside .nil
  simpa using laid

theorem OpenCall.finishParts (call : OpenCall) (nodes : List ValueNode) (closed : Bool) (stop : Nat) :
    let front := ValueNode.spaceBefore (ValueNode.absorbSpaces nodes)
    let back := ValueNode.spaceAfter front.2
    call.finish nodes closed stop = .call call.name front.1 back.1 back.2 closed ⟨call.start, stop⟩ := rfl

theorem OpenCall.finishLaid (call : OpenCall) {inner : List Char} {nodes : List ValueNode}
    {lost : List ByteRange} (bare : ∀ node ∈ nodes, node.Bare)
    (laid : Laid (call.start + byteSize call.name.toList + 1) inner nodes lost) (closed : Bool) {stop : Nat}
    (size : stop = call.start + byteSize (call.name.toList ++ '(' :: (inner ++ closingText closed))) :
    Laid call.start (call.name.toList ++ '(' :: (inner ++ closingText closed))
      [call.finish nodes closed stop] lost := by
  obtain ⟨rest, rfl, front⟩ := (laid.absorbSpaces bare).spaceBefore
  obtain ⟨args, rfl, whole⟩ := front.spaceAfter
  rw [call.finishParts]
  simpa [gapAt] using whole.callAlone (by simp [callText]) size []

/- The text read so far, with the calls that are open at its end: `done` is laid out behind the opening of
the innermost one. -/
inductive Opened : List Char → List OpenCall → List ValueNode → List ByteRange → Prop where
  | top {text done lost} (bare : ∀ node ∈ done, node.Bare) (laid : Laid 0 text done.reverse lost) :
      Opened text [] done lost
  | call {text calls before lost name inner done more} (outer : Opened text calls before lost)
      (bare : ∀ node ∈ done, node.Bare)
      (laid : Laid (byteSize text + byteSize name.toList + 1) inner done.reverse more) :
      Opened (text ++ (name.toList ++ '(' :: inner)) (⟨name, byteSize text, before⟩ :: calls) done
        (lost ++ more)

namespace Opened
variable {text : List Char} {calls : List OpenCall} {done : List ValueNode} {lost more : List ByteRange}

theorem push {node : ValueNode} {written : List Char} (opened : Opened text calls done lost)
    (laid : Laid (byteSize text) written [node] more) (bare : node.Bare) :
    Opened (text ++ written) calls (node :: done) (lost ++ more) := by
  cases opened with
  | top others inside =>
    refine .top (List.forall_mem_cons.mpr ⟨bare, others⟩) ?_
    rw [List.reverse_cons]
    exact inside.append (by simpa using laid)
  | @call front _ before _ name inner _ _ outer others inside =>
    have whole : front ++ (name.toList ++ '(' :: inner) ++ written =
        front ++ (name.toList ++ '(' :: (inner ++ written)) := by simp
    rw [whole, List.append_assoc]
    refine .call outer (List.forall_mem_cons.mpr ⟨bare, others⟩) ?_
    rw [List.reverse_cons]
    refine inside.append ?_
    have size : byteSize front + byteSize name.toList + 1 + byteSize inner =
        byteSize (front ++ (name.toList ++ '(' :: inner)) := by simp; omega
    rwa [size]

theorem close {call : OpenCall} (opened : Opened text (call :: calls) done lost) (closed : Bool) {stop : Nat}
    (size : stop = byteSize (text ++ closingText closed)) :
    Opened (text ++ closingText closed) calls (call.finish done.reverse closed stop :: call.before) lost := by
  cases opened with
  | @call front _ before _ name inner _ _ outer others inside =>
    have bare : ∀ node ∈ done.reverse, node.Bare := by simpa using others
    have finished := OpenCall.finishLaid ⟨name, byteSize front, before⟩ bare inside closed
      (size.trans (by simp))
    simpa using outer.push finished (by rw [OpenCall.finishParts]; trivial)

theorem closeAll (opened : Opened text calls done lost) :
    Laid 0 text (SheetLint.closeAll (byteSize text) calls done) lost := by
  induction calls generalizing text done lost with
  | nil =>
    cases opened with
    | top bare laid => exact laid.absorbSpaces (by simpa using bare)
  | cons call calls ih =>
    have closed := opened.close false rfl
    rw [closingText, if_neg Bool.false_ne_true, List.append_nil] at closed
    exact ih closed

end Opened
end SheetLint
