import Mathlib.Data.List.ReduceOption
import SheetLint.Proofs.Lossless

/-! What reading a text says about its tree, without places and layout. The marks of a text are the
kinds of its pieces, with a gap for every closing brace; they depend neither on where the text stands
nor on the layout in front of it, and they are the marks of the forest that is read. -/
namespace SheetLint
open Text (byteSize)

def Piece.mark : Piece → Option Kind
  | leaf data _ _ => some data.kind
  | head data _ _ => some data.kind
  | close _ _ => none

def scanMark (cs : List Char) : Option (Option Kind × List Char) :=
  match Piece.scan "" 0 cs with
  | .ok (piece, rest) => some (piece.mark, rest)
  | .error _ => none

def marks (cs : List Char) : Option (List (Option Kind)) :=
  match pieces 0 cs with
  | (ps, .finished _) => some (ps.map Piece.mark)
  | (_, .failed _) => none

/-! ## Texts -/

theorem preludeMoved {offset depth : Nat} {cs : List Char} {p : List Char × List Char}
    (ok : Scan.prelude offset depth cs = .ok p) (other : Nat) :
    Scan.prelude other depth cs = .ok p :=
  Scan.State.preludeExact.mpr (Scan.State.preludeExact.mp ok)

theorem scannedMoved {before : String} {start : Nat} {cs rest : List Char} {piece : Piece}
    (scanned : Scanned before start cs piece rest) (before' : String) (start' : Nat) :
    ∃ piece', Scanned before' start' cs piece' rest ∧ piece'.mark = piece.mark := by
  cases scanned with
  | close rest => exact ⟨_, .close rest, rfl⟩
  | comment closed => exact ⟨_, .comment closed, rfl⟩
  | line body => exact ⟨_, .line body, rfl⟩
  | atBlock name params => exact ⟨_, .atBlock name (preludeMoved params _), rfl⟩
  | atEnded name params => exact ⟨_, .atEnded name (preludeMoved params _), rfl⟩
  | atOpen name params stop => exact ⟨_, .atOpen name (preludeMoved params _) stop, rfl⟩
  | rule plain head => exact ⟨_, .rule plain (preludeMoved head _), rfl⟩
  | ended plain body parts => exact ⟨_, .ended plain (preludeMoved body _) parts, rfl⟩
  | opened plain body stop parts => exact ⟨_, .opened plain (preludeMoved body _) stop parts, rfl⟩

theorem scanMarkExact {cs rest : List Char} {m : Option Kind} (before : String) (start : Nat) :
    scanMark cs = some (m, rest) ↔ ∃ piece, Scanned before start cs piece rest ∧ piece.mark = m := by
  unfold scanMark
  constructor
  · intro found
    split at found
    · next piece more ok =>
      cases found
      exact scannedMoved (scanSound ok) before start
    · cases found
  · rintro ⟨piece, scanned, rfl⟩
    obtain ⟨piece', scanned', same⟩ := scannedMoved scanned "" 0
    rw [scanComplete scanned']
    simp only [same]

theorem cutMoved {offset : Nat} {cs : List Char} {ps : List Piece} {after : String}
    (cut : Cut offset cs ps after) (offset' : Nat) :
    ∃ ps', Cut offset' cs ps' after ∧ ps'.map Piece.mark = ps.map Piece.mark := by
  induction cut generalizing offset' with
  | nil blank => exact ⟨[], .nil blank, rfl⟩
  | @cons offset layout c body piece rest ps after blank visible scanned tail ih =>
    obtain ⟨piece', scanned', same⟩ :=
      scannedMoved scanned (.ofList layout) (offset' + byteSize layout)
    obtain ⟨ps', tail', others⟩ := ih piece'.next
    exact ⟨piece' :: ps', .cons blank visible scanned' tail', by rw [List.map_cons, same, others]; rfl⟩

theorem marksExact {cs : List Char} {ms : List (Option Kind)} (offset : Nat) :
    marks cs = some ms ↔ ∃ ps after, Cut offset cs ps after ∧ ps.map Piece.mark = ms := by
  unfold marks
  constructor
  · intro found
    split at found
    · next ps after done =>
      cases found
      obtain ⟨ps', cut, same⟩ := cutMoved (cutSound done) offset
      exact ⟨ps', after, cut, same⟩
    · cases found
  · rintro ⟨ps, after, cut, rfl⟩
    obtain ⟨ps', cut', same⟩ := cutMoved cut 0
    rw [cutComplete cut']
    simp only [same]

theorem marksEnd {layout : List Char} (blank : Layout layout) : marks layout = some [] := by
  rw [marks, piecesEnd blank]
  rfl

theorem marksStep {layout body : List Char} {c : Char} (blank : Layout layout)
    (visible : isLayout c = false) :
    marks (layout ++ c :: body) =
      (scanMark (c :: body)).bind fun p => (marks p.2).map (p.1 :: ·) := by
  apply Option.ext
  intro ms
  rw [Option.bind_eq_some_iff]
  constructor
  · intro found
    obtain ⟨ps, after, cut, rfl⟩ := (marksExact 0).mp found
    generalize whole : layout ++ c :: body = cs at cut
    cases cut with
    | nil gap =>
      subst whole
      rw [gap c (by simp)] at visible
      cases visible
    | @cons _ gap d more piece rest ps _ gapBlank dVisible scanned tail =>
      obtain ⟨take, drop⟩ := takeLayout blank visible body
      obtain ⟨take', drop'⟩ := takeLayout gapBlank dVisible more
      rw [whole] at drop
      obtain ⟨rfl, rfl⟩ := List.cons.inj (drop.symm.trans drop')
      exact ⟨(piece.mark, rest), (scanMarkExact _ _).mpr ⟨piece, scanned, rfl⟩,
        Option.map_eq_some_iff.mpr ⟨_, (marksExact _).mpr ⟨ps, after, tail, rfl⟩, rfl⟩⟩
  · rintro ⟨⟨m, rest⟩, first, others⟩
    obtain ⟨more, found, rfl⟩ := Option.map_eq_some_iff.mp others
    obtain ⟨piece, scanned, rfl⟩ := (scanMarkExact (.ofList layout) (0 + byteSize layout)).mp first
    obtain ⟨ps, after, tail, rfl⟩ := (marksExact piece.next).mp found
    exact (marksExact 0).mpr ⟨piece :: ps, after, .cons blank visible scanned tail, rfl⟩

/-! ## Forests -/

def Node.kind (node : Node) : Kind := node.data.kind

namespace Forest

def marks : Forest Node → List (Option Kind)
  | nil => []
  | cons node children next =>
    some node.kind :: ((if node.kind.isBlock then children.marks ++ [none] else []) ++ next.marks)

def kinds (f : Forest Node) : List Kind := f.labels.map Node.kind

inductive Blocks : Forest Node → Prop where
  | nil : Blocks nil
  | leaf {node next} (plain : node.kind.isBlock = false) (tail : Blocks next) :
      Blocks (cons node nil next)
  | block {node children next} (block : node.kind.isBlock = true) (body : Blocks children)
      (tail : Blocks next) : Blocks (cons node children next)

theorem Blocks.append {f g : Forest Node} (blocks : f.Blocks) (more : g.Blocks) : (f ++ g).Blocks := by
  induction blocks with
  | nil => exact more
  | leaf plain _ ih => exact .leaf plain ih
  | block block body _ _ iht => exact .block block body iht

@[simp] theorem marksAppend (f g : Forest Node) : (f ++ g).marks = f.marks ++ g.marks := by
  induction f with
  | nil => rfl
  | cons node children next _ ih => simp [marks, ih]

theorem marksKinds {f : Forest Node} (blocks : f.Blocks) : f.marks.reduceOption = f.kinds := by
  unfold kinds
  induction blocks with
  | nil => rfl
  | leaf plain tail ih =>
    rw [marks, plain, List.reduceOption_cons_of_some]
    simp [ih, labels]
  | block block body tail ihb iht =>
    rw [marks, block, List.reduceOption_cons_of_some]
    simp [List.reduceOption_append, ihb, iht, labels]

end Forest

variable {index : LineIndex} {fresh last : Nat} {ps : List Piece} {f : Forest Node}

theorem nestedBlocks (nested : Nested index fresh ps f last) (shaped : ∀ p ∈ ps, p.Shaped) :
    f.Blocks := by
  induction nested with
  | nil => exact .nil
  | leaf tail ih =>
    obtain ⟨first, others⟩ := List.forall_mem_cons.mp shaped
    exact .leaf first (ih others)
  | block body tail ihb iht =>
    obtain ⟨first, others⟩ := List.forall_mem_cons.mp shaped
    obtain ⟨inside, behind⟩ := List.forall_mem_append.mp others
    exact .block first (ihb inside) (iht (List.forall_mem_cons.mp behind).2)

theorem nestedMarks (nested : Nested index fresh ps f last) (shaped : ∀ p ∈ ps, p.Shaped) :
    ps.map Piece.mark = f.marks := by
  induction nested with
  | nil => rfl
  | @leaf fresh data start stop rest next last tail ih =>
    obtain ⟨first, others⟩ := List.forall_mem_cons.mp shaped
    rw [Forest.marks, if_neg (by rw [Bool.not_eq_true]; exact first), List.map_cons, ih others]
    rfl
  | @block fresh data start brace inner after stop rest children middle next last body tail ihb iht =>
    obtain ⟨first, others⟩ := List.forall_mem_cons.mp shaped
    obtain ⟨inside, behind⟩ := List.forall_mem_append.mp others
    rw [Forest.marks, if_pos (by exact first), ← ihb inside, ← iht (List.forall_mem_cons.mp behind).2]
    simp [Piece.mark, Node.kind, Frame.close]

theorem marksNested (blocks : f.Blocks) (shaped : ∀ p ∈ ps, p.Shaped)
    (same : ps.map Piece.mark = f.marks) (index : LineIndex) (fresh : Nat) :
    ∃ g last, Nested index fresh ps g last ∧ g.map Node.kind = f.map Node.kind := by
  induction blocks generalizing ps fresh with
  | nil =>
    cases List.map_eq_nil_iff.mp same
    exact ⟨.nil, fresh, .nil fresh, rfl⟩
  | @leaf node next plain tail ih =>
    rw [Forest.marks, plain, List.map_eq_cons_iff] at same
    obtain ⟨piece, more, rfl, first, others⟩ := same
    obtain ⟨shape, shapes⟩ := List.forall_mem_cons.mp shaped
    obtain ⟨g, last, nested, equal⟩ := ih shapes others (fresh + 1)
    cases piece with
    | leaf data start stop =>
      refine ⟨_, last, .leaf nested, ?_⟩
      rw [Forest.map, Forest.map, equal]
      exact congrArg (Forest.cons · _ _) (Option.some.inj first)
    | head data start brace =>
      rw [← Option.some.inj first] at plain
      cases plain.symm.trans shape
    | close before brace => cases first
  | @block node children next block body tail ihb iht =>
    rw [Forest.marks, block, List.map_eq_cons_iff] at same
    obtain ⟨piece, more, rfl, first, others⟩ := same
    rw [if_pos rfl, List.append_assoc, List.map_eq_append_iff] at others
    obtain ⟨inner, behind, rfl, within, others⟩ := others
    rw [List.singleton_append, List.map_eq_cons_iff] at others
    obtain ⟨brace, rest, rfl, closing, others⟩ := others
    obtain ⟨shape, shapes⟩ := List.forall_mem_cons.mp shaped
    obtain ⟨inShapes, outShapes⟩ := List.forall_mem_append.mp shapes
    obtain ⟨g, middle, nested, equal⟩ := ihb inShapes within (fresh + 1)
    obtain ⟨h, last, nested', equal'⟩ := iht (List.forall_mem_cons.mp outShapes).2 others middle
    cases piece with
    | leaf data start stop =>
      rw [← Option.some.inj first] at block
      cases block.symm.trans shape
    | head data start opening =>
      cases brace with
      | close after stop =>
        refine ⟨_, last, .block nested nested', ?_⟩
        rw [Forest.map, Forest.map, equal, equal']
        exact congrArg (Forest.cons · _ _) (Option.some.inj first)
      | leaf => cases closing
      | head => cases closing
    | close before brace => cases first

theorem parsedMarks {source : String} {sheet : Sheet} (ok : Sheet.parse source = .ok sheet) :
    marks source.toList = some sheet.body.marks ∧ sheet.body.Blocks := by
  obtain ⟨ps, after, cut, nested, -⟩ := Sheet.parseExact.mp ok
  exact ⟨(marksExact 0).mpr ⟨ps, after, cut, nestedMarks nested (cutShaped cut)⟩,
    nestedBlocks nested (cutShaped cut)⟩

theorem marksParsed {source : String} (blocks : f.Blocks) (read : marks source.toList = some f.marks) :
    ∃ sheet, Sheet.parse source = .ok sheet ∧ sheet.body.map Node.kind = f.map Node.kind := by
  obtain ⟨ps, after, cut, same⟩ := (marksExact 0).mp read
  obtain ⟨g, last, nested, equal⟩ :=
    marksNested blocks (cutShaped cut) same (.ofText source.toList) 1
  exact ⟨⟨⟨.root, { after }, none⟩, g, last⟩, Sheet.parseExact.mpr ⟨ps, after, cut, nested, rfl⟩, equal⟩

end SheetLint
