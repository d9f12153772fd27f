import SheetLint.Proofs.ForestIds
import SheetLint.Proofs.Scanned
import SheetLint.Sheet.Parse

/-! The pieces that a forest is nested from. `Nested` relates a balanced list of pieces to its forest,
whose nodes are numbered in the order in which they begin. Nesting succeeds exactly on such lists, and
gives that forest; a text is read exactly if it can be cut into such a list. -/
namespace SheetLint

namespace Forest
variable {α : Type}

def trees : Forest α → List (α × Forest α)
  | nil => []
  | cons a children next => (a, children) :: trees next

@[simp] theorem ofTreesTrees (f : Forest α) : ofTrees f.trees = f := by
  induction f with
  | nil => rfl
  | cons a children next _ ih => rw [trees, ofTrees, ih]

@[simp] theorem ofTreesAppend (ts us : List (α × Forest α)) :
    ofTrees (ts ++ us) = ofTrees ts ++ ofTrees us := by
  induction ts with
  | nil => rfl
  | cons t ts ih => rw [List.cons_append, ofTrees, ofTrees, ih, consAppend]

theorem ofTreesPush (a : α) (children f : Forest α) (done : List (α × Forest α)) :
    ofTrees ((a, children) :: done).reverse ++ f = ofTrees done.reverse ++ cons a children f := by
  rw [List.reverse_cons, ofTreesAppend, appendAssoc]
  rfl

end Forest

/-- Numbers from the first argument on are given out, up to the last, which is still free. -/
inductive Nested (index : LineIndex) : Nat → List Piece → Forest Node → Nat → Prop where
  | nil (fresh) : Nested index fresh [] .nil fresh
  | leaf {fresh data start stop rest next last}
      (tail : Nested index (fresh + 1) rest next last) :
      Nested index fresh (.leaf data start stop :: rest)
        (.cons ⟨fresh, { data with span := some (index.span start stop) }⟩ .nil next) last
  | block {fresh data start brace inner after stop rest children middle next last}
      (body : Nested index (fresh + 1) inner children middle)
      (tail : Nested index middle rest next last) :
      Nested index fresh (.head data start brace :: (inner ++ .close after stop :: rest))
        (.cons (Frame.close ⟨⟨fresh, data⟩, start, brace, []⟩ index after (stop + 1)) children next)
        last

variable {index : LineIndex} {ending : Ending}

theorem nestNested {ps forest fresh last} (nested : Nested index fresh ps forest last)
    (more : List Piece) (frames : List Frame) (done : List (Node × Forest Node)) :
    nest index ending (ps ++ more) frames done fresh =
      nest index ending more frames (forest.trees.reverse ++ done) last := by
  induction nested generalizing more frames done with
  | nil => rfl
  | leaf tail ih =>
    rw [List.cons_append, nest, ih]
    simp [Forest.trees]
  | @block fresh data start brace inner after stop rest children middle next last body tail ihb iht =>
    rw [List.cons_append, List.append_assoc, nest, ihb, List.cons_append, nest, iht]
    simp [Forest.trees, Frame.close]

/- What is left when nesting succeeds: with no block open the rest is balanced, else it is balanced up
to the brace that closes the innermost block, and nesting goes on behind that brace. -/
theorem nestSplit {ps : List Piece} {frames : List Frame} {done : List (Node × Forest Node)}
    {fresh : NodeId} {sheet : Sheet} (ok : nest index ending ps frames done fresh = .ok sheet) :
    match frames with
    | [] => ∃ after forest last, ending = .finished after ∧ Nested index fresh ps forest last ∧
        sheet = ⟨⟨.root, { after }, none⟩, .ofTrees done.reverse ++ forest, last⟩
    | frame :: outer => ∃ inner after stop rest forest last, ps = inner ++ .close after stop :: rest ∧
        Nested index fresh inner forest last ∧
        nest index ending rest outer
          ((frame.close index after (stop + 1), .ofTrees done.reverse ++ forest) :: frame.before)
          last = .ok sheet := by
  -- the number of pieces decreases; a head needs the statement twice, for its body and for the rest
  match ps with
  | [] =>
    cases ending with
    | failed fault => simp [nest] at ok
    | finished after =>
      cases frames with
      | nil =>
        simp only [nest, Except.ok.injEq] at ok
        exact ⟨after, .nil, fresh, rfl, .nil fresh, by simp [← ok]⟩
      | cons frame outer => simp [nest] at ok
  | .leaf data start stop :: rest =>
    rw [nest] at ok
    have split := nestSplit ok
    cases frames with
    | nil =>
      obtain ⟨after, forest, last, hending, nested, hsheet⟩ := split
      exact ⟨after, _, last, hending, .leaf nested, by rw [hsheet, Forest.ofTreesPush]⟩
    | cons frame outer =>
      obtain ⟨inner, after, stop', more, forest, last, rfl, nested, next⟩ := split
      refine ⟨_ :: inner, after, stop', more, _, last, rfl, .leaf nested, ?_⟩
      rw [← next, Forest.ofTreesPush]
  | .head data start brace :: rest =>
    rw [nest] at ok
    obtain ⟨inner, after, stop, more, children, middle, rfl, body, next⟩ := nestSplit ok
    have split := nestSplit next
    cases frames with
    | nil =>
      obtain ⟨after', forest, last, hending, nested, hsheet⟩ := split
      exact ⟨after', _, last, hending, .block body nested, by rw [hsheet, Forest.ofTreesPush]; rfl⟩
    | cons frame outer =>
      obtain ⟨inner', after', stop', more', forest, last, rfl, nested, next'⟩ := split
      refine ⟨.head data start brace :: (inner ++ .close after stop :: inner'), after', stop', more', _,
        last, by simp, .block body nested, ?_⟩
      rw [← next', Forest.ofTreesPush]
      rfl
  | .close after brace :: rest =>
    cases frames with
    | nil => simp [nest] at ok
    | cons frame outer =>
      rw [nest] at ok
      exact ⟨[], after, brace, rest, .nil, fresh, rfl, .nil fresh, by simpa using ok⟩
termination_by ps.length

theorem nestExact {ps : List Piece} {fresh : NodeId} {sheet : Sheet} :
    nest index ending ps [] [] fresh = .ok sheet ↔
      ∃ after, ending = .finished after ∧ Nested index fresh ps sheet.body sheet.fresh ∧
        sheet.root = ⟨.root, { after }, none⟩ := by
  constructor
  · intro ok
    obtain ⟨after, forest, last, hending, nested, rfl⟩ := nestSplit ok
    exact ⟨after, hending, by simpa [Forest.ofTrees] using nested, rfl⟩
  · rintro ⟨after, rfl, nested, hroot⟩
    rw [← List.append_nil ps, nestNested nested, nest]
    simp [← hroot]

theorem Sheet.parseExact {source : String} {sheet : Sheet} :
    parse source = .ok sheet ↔
      ∃ ps after, Cut 0 source.toList ps after ∧
        Nested (.ofText source.toList) 1 ps sheet.body sheet.fresh ∧
        sheet.root = ⟨.root, { after }, none⟩ := by
  have mapped : parse source =
      (nest (.ofText source.toList) (pieces 0 source.toList).2 (pieces 0 source.toList).1 [] [] 1).mapError
        fun fault => fault.toError (.ofText source.toList) := rfl
  constructor
  · intro ok
    rw [mapped] at ok
    cases run : nest (.ofText source.toList) (pieces 0 source.toList).2 (pieces 0 source.toList).1
        [] [] 1 with
    | error fault =>
      rw [run] at ok
      cases ok
    | ok result =>
      rw [run] at ok
      cases ok
      obtain ⟨after, ending, nested, root⟩ := nestExact.mp run
      exact ⟨_, after, cutSound (Prod.ext rfl ending), nested, root⟩
  · rintro ⟨ps, after, cut, nested, root⟩
    rw [mapped, cutComplete cut, nestExact.mpr ⟨after, rfl, nested, root⟩]
    rfl

theorem Sheet.parses {source : String} (ok : (parse source).isOk = true) :
    ∃ sheet, parse source = .ok sheet := by
  cases run : parse source with
  | error fault =>
    rw [run] at ok
    cases ok
  | ok sheet => exact ⟨sheet, rfl⟩

theorem nestedIds {ps forest fresh last} (nested : Nested index fresh ps forest last) :
    forest.ids = List.range' fresh forest.size ∧ last = fresh + forest.size := by
  induction nested with
  | nil => exact ⟨rfl, rfl⟩
  | @leaf fresh data start stop rest next last tail ih =>
    obtain ⟨ids, free⟩ := ih
    refine ⟨?_, by simp only [Forest.size]; omega⟩
    rw [Forest.idsCons, ids, Forest.size, Forest.size, Nat.add_zero, Nat.add_comm 1, List.range'_succ]
    rfl
  | @block fresh data start brace inner after stop rest children middle next last body tail ihb iht =>
    obtain ⟨inside, middleFree⟩ := ihb
    obtain ⟨behind, lastFree⟩ := iht
    refine ⟨?_, by simp only [Forest.size]; omega⟩
    have cut : 1 + children.size + next.size = children.size + next.size + 1 := by omega
    rw [Forest.idsCons, inside, behind, Forest.size, middleFree, cut, List.range'_succ,
      List.range'_append_1]
    rfl

end SheetLint
