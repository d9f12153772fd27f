import Mathlib.Data.List.Infix
import Mathlib.Data.List.TakeWhile
import SheetLint.Position

/-! Places counted out. The index of a text finds the line and the column of an offset by the starts of the
lines; where the offset is the end of some front part of the text, they are the counts of line feeds and
bytes in that part, whatever stands behind it. -/
namespace SheetLint
open Text (byteSize)

def Position.behind (front : List Char) : Position where
  line := .ofNat (1 + front.count '\n')
  column := .ofNat (1 + byteSize (front.reverse.takeWhile (· != '\n')))
  offset := byteSize front

structure Position.Exact (place : Position) (front : List Char) : Prop where
  line : place.line.toNat = 1 + front.count '\n'
  column : place.column.toNat = 1 + byteSize (front.reverse.takeWhile (· != '\n'))
  offset : place.offset = byteSize front

def Span.covering (front text : List Char) : Span := ⟨.behind front, .behind (front ++ text)⟩

namespace LineIndex

theorem startsAppend (offset : Nat) (front rest : List Char) :
    startsAfter offset (front ++ rest) =
      startsAfter offset front ++ startsAfter (offset + byteSize front) rest := by
  induction front generalizing offset with
  | nil => rfl
  | cons c cs ih =>
    simp only [List.cons_append, startsAfter, Text.byteSizeCons, ← Nat.add_assoc, ih]
    split <;> rfl

theorem startsBounds (offset : Nat) (text : List Char) :
    ∀ n ∈ startsAfter offset text, offset < n ∧ n ≤ offset + byteSize text := by
  induction text generalizing offset with
  | nil => simp [startsAfter]
  | cons c cs ih =>
    intro n inside
    have wide := Char.utf8Size_pos c
    have later : n = offset + c.utf8Size ∨ n ∈ startsAfter (offset + c.utf8Size) cs := by
      simp only [startsAfter] at inside
      split at inside
      · exact List.mem_cons.mp inside
      · exact .inr inside
    rw [Text.byteSizeCons]
    rcases later with rfl | further
    · omega
    · have bounds := ih _ n further
      omega

theorem startsCount (offset : Nat) (text : List Char) :
    (startsAfter offset text).length = text.count '\n' := by
  induction text generalizing offset with
  | nil => rfl
  | cons c cs ih =>
    simp only [startsAfter, List.count_cons]
    split
    · rw [List.length_cons, ih]
    · rw [ih, Nat.add_zero]

theorem startsLast (offset : Nat) (text : List Char) :
    (startsAfter offset text).getLastD offset + byteSize (text.reverse.takeWhile (· != '\n')) =
      offset + byteSize text := by
  induction text using List.reverseRecOn with
  | nil => rfl
  | append_singleton front c ih =>
    rw [startsAppend, List.reverse_append, List.reverse_singleton, List.singleton_append]
    by_cases feed : c = '\n'
    · subst feed
      have line : startsAfter (offset + byteSize front) ['\n'] = [offset + byteSize front + 1] := rfl
      rw [line, List.getLastD_concat, List.takeWhile_cons_of_neg (by simp), Text.byteSizeAppend]
      exact Nat.add_assoc offset (byteSize front) 1
    · have line : startsAfter (offset + byteSize front) [c] = [] := by simp [startsAfter, feed]
      rw [line, List.append_nil, List.takeWhile_cons_of_pos (by simpa using feed)]
      simp only [Text.byteSizeCons, Text.byteSizeAppend, Text.byteSizeNil]
      omega

theorem positionFront {front : List Char} {offset : Nat} (within : offset ≤ byteSize front) (rest : List Char) :
    (ofText (front ++ rest)).position offset = (ofText front).position offset := by
  have later : (startsAfter (0 + byteSize front) rest).takeWhile (· ≤ offset) = [] := by
    cases starts : startsAfter (0 + byteSize front) rest with
    | nil => rfl
    | cons n more =>
      have beyond := (startsBounds _ rest n (starts ▸ List.mem_cons_self)).1
      exact List.takeWhile_cons_of_neg (by rw [decide_eq_true_eq]; omega)
  have begun : (ofText (front ++ rest)).starts.takeWhile (· ≤ offset) =
      (ofText front).starts.takeWhile (· ≤ offset) := by
    rw [ofText, ofText, startsAppend, ← List.cons_append, List.takeWhile_append, later, List.append_nil]
    split
    · next all => exact ((List.takeWhile_prefix _).eq_of_length all).symm
    · rfl
  rw [position, position, begun]

theorem positionBehind {front text : List Char} (within : front <+: text) :
    (ofText text).position (byteSize front) = .behind front := by
  obtain ⟨rest, rfl⟩ := within
  have begun : (ofText front).starts.takeWhile (· ≤ byteSize front) = 0 :: startsAfter 0 front := by
    refine List.takeWhile_eq_self_iff.mpr fun n inside => ?_
    rw [decide_eq_true_eq]
    rcases List.mem_cons.mp inside with rfl | later
    · exact Nat.zero_le _
    · have bounds := startsBounds 0 front n later
      omega
  have last := startsLast 0 front
  rw [positionFront (Nat.le_refl _), position, begun, List.length_cons, startsCount, List.getLastD_cons,
    Position.behind]
  congr 2 <;> omega

theorem spanCovering {front text whole : List Char} (within : front ++ text <+: whole) :
    (ofText whole).span (byteSize front) (byteSize (front ++ text)) = .covering front text := by
  rw [span, positionBehind ((List.prefix_append front text).trans within), positionBehind within,
    Span.covering]

end LineIndex

theorem Text.lengthLe (text : List Char) : text.length ≤ byteSize text := by
  induction text with
  | nil => exact Nat.zero_le _
  | cons c cs ih =>
    have wide := Char.utf8Size_pos c
    rw [List.length_cons, Text.byteSizeCons]
    omega

theorem Position.behindExact {front : List Char} (short : byteSize front + 1 < UInt32.size) :
    (Position.behind front).Exact front := by
  have feeds : front.count '\n' ≤ byteSize front := List.count_le_length.trans (Text.lengthLe front)
  have back := LineIndex.startsLast 0 front
  exact ⟨UInt32.toNat_ofNat_of_lt' (by omega), UInt32.toNat_ofNat_of_lt' (by omega), rfl⟩

theorem Position.behindEdge {front : List Char} (edge : byteSize front + 1 = UInt32.size) :
    (Position.behind front).column = 0 ↔ '\n' ∉ front := by
  have zero (n : Nat) (bound : n ≤ byteSize front) : UInt32.ofNat (1 + n) = 0 ↔ n = byteSize front := by
    rw [← UInt32.toNat_inj, UInt32.toNat_ofNat', UInt32.toNat_zero]
    unfold UInt32.size at edge
    omega
  have back := LineIndex.startsLast 0 front
  have none : LineIndex.startsAfter 0 front = [] ↔ '\n' ∉ front := by
    rw [← List.length_eq_zero_iff, LineIndex.startsCount, List.count_eq_zero]
  rw [Position.behind, zero _ (by omega), ← none]
  constructor
  · intro all
    -- a line that starts later would leave bytes in front of it
    refine List.eq_nil_iff_forall_not_mem.mpr fun start inside => ?_
    have later := LineIndex.startsBounds 0 front _ (List.getLast_mem (List.ne_nil_of_mem inside))
    rw [List.getLastD_eq_getLast?, List.getLast?_eq_getLast_of_ne_nil (List.ne_nil_of_mem inside),
      Option.getD_some] at back
    omega
  · intro empty
    rw [empty, List.getLastD_nil] at back
    omega

theorem Text.repeatedSize {c : Char} (narrow : c.utf8Size = 1) (n : Nat) : byteSize (List.replicate n c) = n := by
  induction n with
  | zero => rfl
  | succ n ih =>
    rw [List.replicate_succ, Text.byteSizeCons, ih, narrow]
    omega

theorem Position.repeatedBehind {c : Char} (narrow : c.utf8Size = 1) (n : Nat) :
    Position.behind (List.replicate n c) =
      if c = '\n' then ⟨.ofNat (1 + n), 1, n⟩ else ⟨1, .ofNat (1 + n), n⟩ := by
  rw [Position.behind, Text.repeatedSize narrow, List.reverse_replicate, List.count_replicate]
  by_cases feed : c = '\n'
  · subst feed
    have none : (List.replicate n '\n').takeWhile (· != '\n') = [] := by
      cases n with
      | zero => rfl
      | succ n => rw [List.replicate_succ, List.takeWhile_cons_of_neg (by simp)]
    rw [none]
    rfl
  · have all : (List.replicate n c).takeWhile (· != '\n') = List.replicate n c :=
      List.takeWhile_eq_self_iff.mpr fun d inside => by simp [List.eq_of_mem_replicate inside, feed]
    rw [all, Text.repeatedSize narrow, if_neg feed, if_neg (by simpa using feed)]
    rfl

end SheetLint
