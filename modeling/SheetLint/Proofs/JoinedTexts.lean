import SheetLint.Proofs.DirectivePlacement
import SheetLint.Proofs.ReadAhead

/-! Texts read one behind the other. If the last node of a text is over with it, more text behind it is read
as it is read alone, further on: its nodes follow, numbered and placed behind the others, and the layout
between the two texts goes to the first of them. -/
namespace SheetLint
open Text (byteSize)

def NodeData.behind (layout : String) (node : NodeData) : NodeData :=
  node.withBefore (layout ++ node.raws.before)

namespace Piece

def shift (size : Nat) : Piece → Piece
  | leaf data start stop => leaf data (start + size) (stop + size)
  | head data start brace => head data (start + size) (brace + size)
  | close before brace => close before (brace + size)

def behind (layout : String) : Piece → Piece
  | leaf data start stop => leaf (data.behind layout) start stop
  | head data start brace => head (data.behind layout) start brace
  | close before brace => close (layout ++ before) brace

theorem nextShift (size : Nat) (piece : Piece) : (piece.shift size).next = piece.next + size := by
  cases piece with
  | leaf => rfl
  | head => exact Nat.add_right_comm _ _ _
  | close => exact Nat.add_right_comm _ _ _

theorem nextBehind (layout : String) (piece : Piece) : (piece.behind layout).next = piece.next := by
  cases piece <;> rfl

end Piece

/-! ## Texts -/

variable {before : String} {start offset : Nat} {cs rest : List Char} {piece : Piece} {ps : List Piece}
  {after : String}

theorem paramsShift (n : AtRuleName) (start size : Nat) :
    n.paramsAt (start + size) = n.paramsAt start + size := by
  unfold AtRuleName.paramsAt
  omega

theorem scannedShift (scanned : Scanned before start cs piece rest) (size : Nat) :
    Scanned before (start + size) cs (piece.shift size) rest := by
  have later (a b : Nat) : a + b + size = a + size + b := Nat.add_right_comm a b size
  cases scanned with
  | close rest => exact .close rest
  | comment closed =>
    rw [Piece.comment, Piece.shift, later, later]
    exact .comment closed
  | line body =>
    rw [Piece.comment, Piece.shift, later, later]
    exact .line body
  | atBlock name params =>
    rw [Piece.shift, later, ← paramsShift]
    exact .atBlock name (preludeMoved params _)
  | atEnded name params =>
    rw [Piece.shift, later, later, ← paramsShift]
    exact .atEnded name (preludeMoved params _)
  | atOpen name params stop =>
    rw [Piece.shift, later, ← paramsShift]
    exact .atOpen name (preludeMoved params _) stop
  | rule plain head =>
    rw [Piece.shift, later]
    exact .rule plain (preludeMoved head _)
  | ended plain body parts =>
    rw [Piece.shift, later, later]
    exact .ended plain (preludeMoved body _) parts
  | opened plain body stop parts =>
    rw [Piece.shift, later]
    exact .opened plain (preludeMoved body _) stop parts

theorem scannedBehind (scanned : Scanned before start cs piece rest) (layout : String) :
    Scanned (layout ++ before) start cs (piece.behind layout) rest := by
  cases scanned with
  | close rest => exact .close rest
  | comment closed => exact .comment closed
  | line body => exact .line body
  | atBlock name params => exact .atBlock name params
  | atEnded name params => exact .atEnded name params
  | atOpen name params stop => exact .atOpen name params stop
  | rule plain head => exact .rule plain head
  | ended plain body parts => exact .ended plain body parts
  | opened plain body stop parts => exact .opened plain body stop parts

theorem cutShift (cut : Cut offset cs ps after) (size : Nat) :
    Cut (offset + size) cs (ps.map (Piece.shift size)) after := by
  induction cut with
  | nil blank => exact .nil blank
  | cons blank visible scanned tail ih =>
    have shifted := scannedShift scanned size
    rw [Nat.add_right_comm] at shifted
    rw [← Piece.nextShift] at ih
    exact .cons blank visible shifted ih

theorem cutBehind {layout : String} (cut : Cut offset cs ps after) (blank : Layout layout.toList) {place : Nat}
    (here : place + byteSize layout.toList = offset) :
    Cut place (layout.toList ++ cs) (ps.modifyHead (Piece.behind layout))
      (if ps.isEmpty then layout ++ after else after) := by
  have whole (gap : List Char) : layout ++ .ofList gap = .ofList (layout.toList ++ gap) := by
    rw [String.ofList_append, String.ofList_toList]
  cases cut with
  | @nil _ gap gapBlank =>
    rw [List.isEmpty_nil, if_pos rfl, whole]
    exact .nil (List.forall_mem_append.mpr ⟨blank, gapBlank⟩)
  | @cons _ gap c body piece rest ps _ gapBlank visible scanned tail =>
    have size : place + byteSize (layout.toList ++ gap) = offset + byteSize gap := by
      rw [Text.byteSizeAppend]
      omega
    have behind := scannedBehind scanned layout
    rw [whole, ← size] at behind
    rw [← Piece.nextBehind layout] at tail
    rw [← List.append_assoc]
    exact .cons (List.forall_mem_append.mpr ⟨blank, gapBlank⟩) visible behind tail

/-! ## Forests -/

def Node.shift (index : LineIndex) (size count : Nat) (node : Node) : Node :=
  ⟨node.id + count, { node.data with
    span := node.data.span.map fun s => index.span (s.start.offset + size) (s.stop.offset + size) }⟩

variable {index : LineIndex} {fresh middle last : Nat} {qs : List Piece} {f g : Forest Node}

theorem nestedShift (nested : Nested index fresh ps f last) (later : LineIndex) (size count : Nat) :
    Nested later (fresh + count) (ps.map (Piece.shift size)) (f.map (Node.shift later size count))
      (last + count) := by
  induction nested with
  | nil fresh => exact .nil _
  | leaf tail ih =>
    rw [Nat.add_right_comm] at ih
    exact .leaf ih
  | @block fresh data start brace inner after stop rest children middle next last body tail ihb iht =>
    rw [Nat.add_right_comm] at ihb
    have read := @Nested.block later (fresh + count) data (start + size) (brace + size) _ after (stop + size) _ _ _
      _ _ ihb iht
    rw [Nat.add_right_comm stop] at read
    rw [List.map_cons, List.map_append, List.map_cons]
    exact read

theorem nestedBehind (nested : Nested index fresh ps f last) (layout : String) :
    Nested index fresh (ps.modifyHead (Piece.behind layout)) (f.mapFirst (NodeData.behind layout)) last := by
  cases nested with
  | nil => exact .nil fresh
  | leaf tail => exact .leaf tail
  | block body tail => exact .block body tail

theorem nestedAppend (nested : Nested index fresh ps f middle) (more : Nested index middle qs g last) :
    Nested index fresh (ps ++ qs) (f ++ g) last := by
  induction nested with
  | nil => exact more
  | leaf tail ih => exact .leaf (ih more)
  | block body tail ihb iht =>
    rw [List.cons_append, List.append_assoc]
    exact .block body (iht more)

theorem nestedRest (nested : Nested index fresh ps f middle) (both : Nested index fresh (ps ++ qs) g last) :
    ∃ rest, Nested index middle qs rest last := by
  have whole := (@nestExact index (.finished "") _ _ ⟨⟨.root, {}, none⟩, g, last⟩).mpr ⟨"", rfl, both, rfl⟩
  rw [nestNested nested] at whole
  obtain ⟨_, rest, _, -, more, same⟩ := nestSplit whole
  cases same
  exact ⟨rest, more⟩

theorem nestedEmpty (nested : Nested index fresh ps f last) : ps.isEmpty = f.isEmpty := by
  cases nested <;> rfl

theorem nestedFront {front : List Char} (nested : Nested (.ofText front) fresh ps f last)
    (within : ∀ p ∈ ps, p.first ≤ byteSize front ∧ p.next ≤ byteSize front) (more : List Char) :
    Nested (.ofText (front ++ more)) fresh ps f last := by
  have same (start stop : Nat) (begins : start ≤ byteSize front) (ends : stop ≤ byteSize front) :
      (LineIndex.ofText front).span start stop = (LineIndex.ofText (front ++ more)).span start stop := by
    rw [LineIndex.span, LineIndex.span, LineIndex.positionFront begins more,
      LineIndex.positionFront ends more]
  induction nested with
  | nil => exact .nil _
  | @leaf fresh data start stop rest next last tail ih =>
    obtain ⟨⟨begins, ends⟩, others⟩ := List.forall_mem_cons.mp within
    rw [same start stop begins ends]
    exact .leaf (ih others)
  | @block fresh data start brace inner after stop rest children middle next last body tail ihb iht =>
    obtain ⟨⟨begins, -⟩, others⟩ := List.forall_mem_cons.mp within
    obtain ⟨inside, behind⟩ := List.forall_mem_append.mp others
    obtain ⟨⟨-, ends⟩, behind⟩ := List.forall_mem_cons.mp behind
    rw [Frame.close, same start (stop + 1) begins ends]
    exact .block (ihb inside) (iht behind)

theorem cutWithin (cut : Cut offset cs ps after) :
    ∀ p ∈ ps, p.first ≤ offset + byteSize cs ∧ p.next ≤ offset + byteSize cs := by
  induction cut with
  | nil => simp
  | cons blank visible scanned tail ih =>
    have first := (scannedFirst scanned).1
    have next := scannedNext scanned
    rw [Text.byteSizeAppend]
    refine List.forall_mem_cons.mpr ⟨⟨by omega, by omega⟩, fun p inside => ?_⟩
    obtain ⟨begins, ends⟩ := ih p inside
    exact ⟨by omega, by omega⟩

/-! ## Sheets -/

/- The sheet of two texts: `front` was read from the first, which has `size` bytes, and `back` from the
second; `index` is that of both. -/
def Sheet.join (index : LineIndex) (size : Nat) (front back : Sheet) : Sheet where
  root :=
    let after := back.root.raws.after
    ⟨.root, { after := if back.body.isEmpty then front.root.raws.after ++ after else after }, none⟩
  body := front.body ++
    (back.body.map (Node.shift index size front.body.size)).mapFirst (.behind front.root.raws.after)
  fresh := back.fresh + front.body.size

namespace Sheet
variable {first second : String} {front : Sheet}

theorem endedParts (ok : parse first = .ok front) (ended : front.ended = true) :
    ∃ ps place, place + byteSize front.root.raws.after.toList = byteSize first.toList ∧
      Layout front.root.raws.after.toList ∧ ∀ more,
        pieces 0 (first.toList ++ more) = (ps ++ (pieces place (front.root.raws.after.toList ++ more)).1,
          (pieces place (front.root.raws.after.toList ++ more)).2) ∧
        Nested (.ofText (first.toList ++ more)) 1 ps front.body front.fresh := by
  obtain ⟨ps, after, cut, nested, root⟩ := parseExact.mp ok
  have last := endedLast ended nested
  have within := cutWithin cut
  have here : byteSize (ps.flatMap Piece.text) + byteSize after.toList = 0 + byteSize first.toList := by
    rw [Nat.zero_add, ← Text.byteSizeAppend, ← cutText cut]
  rw [root] at last ⊢
  rw [Nat.zero_add] at within
  refine ⟨ps, _, here.trans (Nat.zero_add _), cutLayout cut, fun more => ⟨?_, nestedFront nested within more⟩⟩
  exact piecesExtended cut last here more

theorem joinParses (ok : parse first = .ok front) (ended : front.ended = true) {back : Sheet}
    (more : parse second = .ok back) :
    parse (first ++ second) =
      .ok (front.join (.ofText (first ++ second).toList) (byteSize first.toList) back) := by
  obtain ⟨ps, place, here, layout, parts⟩ := endedParts ok ended
  obtain ⟨pieced, nested⟩ := parts second.toList
  obtain ⟨qs, after, cut, nestedBack, root⟩ := parseExact.mp more
  have shifted := cutShift cut (byteSize first.toList)
  rw [Nat.zero_add] at shifted
  have behind := cutBehind shifted layout here
  rw [cutComplete behind] at pieced
  have later := nestedBehind (nestedShift nestedBack (.ofText (first.toList ++ second.toList))
    (byteSize first.toList) front.body.size) front.root.raws.after
  rw [← (nestedIds nested).2] at later
  rw [← String.toList_append] at nested later pieced
  refine parseExact.mpr ⟨_, _, cutSound pieced, nestedAppend nested later, ?_⟩
  rw [join, root, List.isEmpty_map, nestedEmpty nestedBack]

theorem joinedParses (ok : parse first = .ok front) (ended : front.ended = true) {whole : Sheet}
    (both : parse (first ++ second) = .ok whole) : ∃ back, parse second = .ok back := by
  obtain ⟨ps, place, -, layout, parts⟩ := endedParts ok ended
  obtain ⟨pieced, nested⟩ := parts second.toList
  obtain ⟨rs, after, cut, nestedBoth, -⟩ := parseExact.mp both
  rw [String.toList_append] at cut nestedBoth
  obtain ⟨rfl, done⟩ := Prod.mk.inj ((cutComplete cut).symm.trans pieced)
  have cutBack := cutSound (Prod.ext rfl done.symm)
  have shaped := cutShaped cutBack
  obtain ⟨rest, nestedBack⟩ := nestedRest nested nestedBoth
  have read := (marksExact place).mpr ⟨_, after, cutBack, nestedMarks nestedBack shaped⟩
  rw [marksLayout layout] at read
  obtain ⟨back, more, -⟩ := marksParsed (nestedBlocks nestedBack shaped) read
  exact ⟨back, more⟩

theorem parseJoined (ok : parse first = .ok front) (ended : front.ended = true) (second : String)
    (whole : Sheet) :
    parse (first ++ second) = .ok whole ↔
      ∃ back, parse second = .ok back ∧
        whole = front.join (.ofText (first ++ second).toList) (byteSize first.toList) back := by
  constructor
  · intro both
    obtain ⟨back, more⟩ := joinedParses ok ended both
    refine ⟨back, more, ?_⟩
    rw [joinParses ok ended more] at both
    exact (Except.ok.inj both).symm
  · rintro ⟨back, more, rfl⟩
    exact joinParses ok ended more

def endedSource : String := "@k x;a \x7bb:c\x7d /*;*/ //\x7d\n ;"

theorem endedSourceParses : ∃ front, parse endedSource = .ok front ∧ front.ended = true := by
  have checked : (parse endedSource).toOption.map ended = some true := by decide +kernel
  obtain ⟨front, ok, isEnded⟩ := Option.map_eq_some_iff.mp checked
  cases run : parse endedSource with
  | error fault =>
    rw [run] at ok
    cases ok
  | ok sheet =>
    rw [run] at ok
    cases ok
    exact ⟨front, rfl, isEnded⟩

theorem parseJoinedMixed :
    ∃ front back, parse endedSource = .ok front ∧ front.ended = true ∧ parse mixedSource = .ok back ∧
      parse (endedSource ++ mixedSource) =
        .ok (front.join (.ofText (endedSource ++ mixedSource).toList) (byteSize endedSource.toList) back) := by
  obtain ⟨front, ok, isEnded⟩ := endedSourceParses
  obtain ⟨back, more⟩ := mixedParses
  exact ⟨front, back, ok, isEnded, more, (parseJoined ok isEnded mixedSource _).mpr ⟨back, more, rfl⟩⟩

end Sheet
end SheetLint
