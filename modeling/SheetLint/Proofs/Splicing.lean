import Mathlib.Data.List.TakeWhile
import SheetLint.Edit

/-! Replacing ranges of a text. `Spliced` cuts the text at the ranges, from left to right, and keeps what
stands between them; where the ranges start one behind the other, all replacements are accepted and the
edited text is the spliced one. -/
namespace SheetLint
open Text (byteSize byteSizeNil byteSizeAppend splitAtSize)

theorem Text.sliceAppend (a b c : List Char) :
    slice? (a ++ (b ++ c)) (byteSize a) (byteSize a + byteSize b) = some b := by
  simp [slice?, splitAtSize]

theorem Text.splitSome (a b : List Char) : (splitAt? (a ++ b) (byteSize a)).isSome = true := by
  simp [splitAtSize]

/- The text at byte `pos`, with every range replaced by what `f` makes of it. -/
inductive Spliced (f : List Char → List Char) : Nat → List Char → List ByteRange → List Char → Prop where
  | done {pos text} : Spliced f pos text [] text
  | cut {pos kept part rest ranges out}
      (tail : Spliced f (pos + byteSize kept + byteSize part) rest ranges out) :
      Spliced f pos (kept ++ (part ++ rest))
        (⟨pos + byteSize kept, pos + byteSize kept + byteSize part⟩ :: ranges) (kept ++ (f part ++ out))

namespace Spliced
variable {f : List Char → List Char} {pos : Nat} {text a b out oa ob : List Char}
variable {ranges xs ys : List ByteRange}

theorem behind (a : List Char) (spliced : Spliced f (pos + byteSize a) b ranges out) :
    Spliced f pos (a ++ b) ranges (a ++ out) := by
  cases spliced with
  | done => exact .done
  | @cut _ kept part rest ranges out tail =>
    have here : pos + byteSize a + byteSize kept = pos + byteSize (a ++ kept) := by
      simp [Nat.add_assoc]
    rw [here] at tail ⊢
    have cut := Spliced.cut tail
    rwa [List.append_assoc, List.append_assoc] at cut

theorem append (first : Spliced f pos a xs oa) (second : Spliced f (pos + byteSize a) b ys ob) :
    Spliced f pos (a ++ b) (xs ++ ys) (oa ++ ob) := by
  induction first with
  | done => exact second.behind _
  | cut _ ih =>
    rw [byteSizeAppend, byteSizeAppend, ← Nat.add_assoc, ← Nat.add_assoc] at second
    simp only [List.append_assoc]
    exact .cut (ih second)

theorem before (spliced : Spliced f pos a ranges out) (b : List Char) :
    Spliced f pos (a ++ b) ranges (out ++ b) := by
  simpa using spliced.append (.done : Spliced f _ b [] b)

theorem uncut (spliced : Spliced f pos text [] out) : out = text := by
  cases spliced
  rfl

theorem shorter (spliced : Spliced (fun _ => []) pos text ranges out)
    (some : ∀ range ∈ ranges, range.start < range.stop) :
    byteSize out + ranges.length ≤ byteSize text := by
  induction spliced with
  | done => simp
  | cut _ ih =>
    obtain ⟨first, others⟩ := List.forall_mem_cons.mp some
    have := ih others
    simp only [byteSizeAppend, byteSizeNil, List.length_cons] at first ⊢
    omega

/-! ## Where the ranges are -/

theorem after (spliced : Spliced f pos text ranges out) :
    ∀ range ∈ ranges, pos ≤ range.start ∧ range.start ≤ range.stop ∧ range.stop ≤ pos + byteSize text := by
  induction spliced with
  | done => simp
  | cut _ ih =>
    simp only [List.forall_mem_cons, byteSizeAppend]
    refine ⟨by omega, fun range inside => ?_⟩
    have := ih range inside
    omega

theorem apart (spliced : Spliced f pos text ranges out) :
    ranges.Pairwise fun left right => left.stop ≤ right.start := by
  induction spliced with
  | done => exact .nil
  | cut tail ih => exact .cons (fun range inside => (tail.after range inside).1) ih

theorem parts (spliced : Spliced f pos text ranges out) (front : List Char)
    (here : pos = byteSize front) :
    ∀ range ∈ ranges, ∃ before part rest, front ++ text = before ++ (part ++ rest) ∧
      range = ⟨byteSize before, byteSize before + byteSize part⟩ := by
  induction spliced generalizing front with
  | done => simp
  | @cut pos kept part rest _ _ _ ih =>
    subst here
    intro range inside
    rcases List.mem_cons.mp inside with rfl | later
    · exact ⟨front ++ kept, part, rest, by simp, by simp⟩
    · obtain ⟨before, own, behind, whole, place⟩ :=
        ih (front ++ (kept ++ part)) (by simp [Nat.add_assoc]) range later
      exact ⟨before, own, behind, by simpa using whole, place⟩

end Spliced

/-! ## Edits in ascending order -/

namespace EditBuffer
variable {replacer : String → String} {value : String} {edits : List Edit}

theorem updateLast {front part rest : List Char} (whole : value.toList = front ++ (part ++ rest))
    (before : ∀ edit ∈ edits, edit.range.start < byteSize front ∧ edit.range.stop ≤ byteSize front)
    (text : String) :
    update ⟨value, edits⟩ ⟨byteSize front, byteSize front + byteSize part⟩ text =
      .ok ⟨value, edits ++ [⟨⟨byteSize front, byteSize front + byteSize part⟩, text⟩]⟩ := by
  have inside : ¬ byteSize value.toList < byteSize front + byteSize part := by
    simp only [whole, byteSizeAppend]
    omega
  have start : isBoundary ⟨value, edits⟩ (byteSize front) = true := by
    rw [isBoundary, whole]
    exact Text.splitSome front _
  have stop : isBoundary ⟨value, edits⟩ (byteSize front + byteSize part) = true := by
    rw [isBoundary, whole, ← byteSizeAppend, ← List.append_assoc]
    exact Text.splitSome (front ++ part) rest
  have earlier : edits.takeWhile (fun edit => edit.range.start < byteSize front) = edits :=
    List.takeWhile_eq_self_iff.mpr fun edit listed => by simpa using (before edit listed).1
  have later : edits.dropWhile (fun edit => edit.range.start < byteSize front) = [] :=
    List.dropWhile_eq_nil_iff.mpr fun edit listed => by simpa using (before edit listed).1
  have free : clashes ⟨byteSize front, byteSize front + byteSize part⟩ edits [] = false := by
    cases last : edits.getLast? with
    | none => simp [clashes, last]
    | some edit =>
      have := (before edit (List.mem_of_getLast? last)).2
      simp [clashes, last]
      omega
  simp [update, size, inside, start, stop, earlier, later, free]

theorem spliceFirst (pos : Nat) (kept part rest : List Char) (text : String) (more : List Edit) :
    splice pos (kept ++ (part ++ rest))
        (⟨⟨pos + byteSize kept, pos + byteSize kept + byteSize part⟩, text⟩ :: more) =
      kept ++ (text.toList ++ splice (pos + byteSize kept + byteSize part) rest more) := by
  simp [splice, splitAtSize]

theorem replaceAllSpliced {pos : Nat} {text out : List Char} {ranges : List ByteRange}
    (spliced : Spliced (fun part => (replacer (.ofList part)).toList) pos text ranges out)
    {front : List Char} (whole : value.toList = front ++ text) (here : pos = byteSize front)
    (ascending : ranges.Pairwise fun left right => left.start < right.start)
    (before : ∀ edit ∈ edits, ∀ range ∈ ranges,
      edit.range.start < range.start ∧ edit.range.stop ≤ range.start) :
    ∃ more, replaceAll replacer ⟨value, edits⟩ ranges = .ok ⟨value, edits ++ more⟩ ∧
      splice pos text more = out := by
  -- each range is recorded behind those before it, and cuts its part out of the text that is left
  induction spliced generalizing front edits with
  | done => exact ⟨[], by simp [replaceAll], rfl⟩
  | @cut pos kept part rest ranges out tail ih =>
    subst here
    obtain ⟨first, ascending⟩ := List.pairwise_cons.mp ascending
    have own : value.toList = (front ++ kept) ++ (part ++ rest) := by simp [whole]
    have size : byteSize front + byteSize kept = byteSize (front ++ kept) := (byteSizeAppend _ _).symm
    have sliced : slice? ⟨value, edits⟩ ⟨byteSize front + byteSize kept,
        byteSize front + byteSize kept + byteSize part⟩ = some (.ofList part) := by
      rw [slice?, size, own, Text.sliceAppend]
      rfl
    have updated := @updateLast value edits (front ++ kept) part rest own
      (fun edit listed => size ▸ (List.forall_mem_cons.mp (before edit listed)).1)
      (replacer (.ofList part))
    rw [← size] at updated
    have behind : ∀ edit ∈ edits ++ [⟨⟨byteSize front + byteSize kept,
        byteSize front + byteSize kept + byteSize part⟩, replacer (.ofList part)⟩], ∀ range ∈ ranges,
        edit.range.start < range.start ∧ edit.range.stop ≤ range.start := by
      intro edit listed range inside
      rcases List.mem_append.mp listed with old | new
      · exact before edit old range (List.mem_cons_of_mem _ inside)
      · rw [List.mem_singleton.mp new]
        exact ⟨first range inside, (tail.after range inside).1⟩
    obtain ⟨more, replaced, shown⟩ :=
      @ih _ (front ++ kept ++ part) (by simp [whole]) (by simp [Nat.add_assoc]) ascending behind
    refine ⟨_ :: more, ?_, by rw [spliceFirst, shown]⟩
    simp only [replaceAll, sliced, updated, replaced, List.append_assoc, List.singleton_append]

end EditBuffer

theorem replaceSpliced {value : String} {ranges : List ByteRange} {replacer : String → String}
    {out : List Char}
    (spliced : Spliced (fun part => (replacer (.ofList part)).toList) 0 value.toList ranges out)
    (ascending : ranges.Pairwise fun left right => left.start < right.start) :
    replaceRanges value ranges replacer = .ok (.ofList out) := by
  obtain ⟨more, replaced, shown⟩ := @EditBuffer.replaceAllSpliced replacer value [] 0 value.toList out
    ranges spliced [] rfl rfl ascending (by simp)
  simp [replaceRanges, replaced, Except.map, EditBuffer.finish, shown]

end SheetLint
