import Mathlib.Data.List.Sort
import SheetLint.Proofs.Places

/-! Places counted byte by byte. Every offset of a text, also one inside of a character, has the line and the
column that plain counting over the bytes in front of it gives: lines start with the text and just past its
line feeds, so whatever search parts the starts at an offset finds its line. Places come in the order of
their offsets, and line and column alone say which offset it is. Both are words of 32 bits: at the end of a
text of 2^32 - 1 bytes, and nowhere before, one of them can be zero. -/
namespace SheetLint

/-! ## Line feeds -/

namespace Text

def bytes (text : List Char) : List UInt8 := text.flatMap String.utf8EncodeChar

def lineFeed : UInt8 := 10

def feedsBefore (text : List Char) (offset : Nat) : List Nat :=
  (List.range offset).filter fun place => (bytes text)[place]? == some lineFeed

def lineStart (text : List Char) (offset : Nat) : Nat :=
  ((feedsBefore text offset).map (· + 1)).getLastD 0

theorem feedEncoded {c : Char} (inside : lineFeed ∈ String.utf8EncodeChar c) : c = '\n' := by
  have high {n : Nat} (big : 128 ≤ n) (small : n < 256) : lineFeed ≠ UInt8.ofNat n := by
    intro same
    have value := congrArg UInt8.toNat same
    rw [UInt8.toNat_ofNat', Nat.mod_eq_of_lt small] at value
    change 10 = n at value
    omega
  rw [← Char.val_inj, ← UInt32.toNat_inj]
  change c.val.toNat = 10
  unfold String.utf8EncodeChar at inside
  dsimp only at inside
  split at inside
  · have value := congrArg UInt8.toNat (List.mem_singleton.mp inside)
    rw [UInt8.toNat_ofNat', Nat.mod_eq_of_lt (by omega)] at value
    exact value.symm
  · -- a character of several bytes has none below 128
    exfalso
    split at inside
    · simp only [List.mem_cons, List.not_mem_nil, or_false] at inside
      rcases inside with same | same <;> exact high (by omega) (by omega) same
    · split at inside <;> simp only [List.mem_cons, List.not_mem_nil, or_false] at inside
      · rcases inside with same | same | same <;> exact high (by omega) (by omega) same
      · rcases inside with same | same | same | same <;> exact high (by omega) (by omega) same

theorem feedPlace (c : Char) (cs : List Char) (place : Nat) :
    (bytes (c :: cs))[place]? = some lineFeed ↔
      place = 0 ∧ c = '\n' ∨ c.utf8Size ≤ place ∧ (bytes cs)[place - c.utf8Size]? = some lineFeed := by
  have size := String.length_utf8EncodeChar c
  have wide := Char.utf8Size_pos c
  rw [bytes, List.flatMap_cons, List.getElem?_append, size, ← bytes]
  split
  · constructor
    · intro found
      obtain rfl := feedEncoded (List.mem_of_getElem? found)
      have narrow : '\n'.utf8Size = 1 := rfl
      exact .inl ⟨by omega, rfl⟩
    · rintro (⟨rfl, rfl⟩ | ⟨beyond, -⟩)
      · rfl
      · omega
  · constructor
    · exact fun found => .inr ⟨by omega, found⟩
    · rintro (⟨rfl, -⟩ | ⟨-, found⟩)
      · omega
      · exact found

theorem feedBefore {text : List Char} {offset place : Nat} :
    place ∈ feedsBefore text offset ↔ place < offset ∧ (bytes text)[place]? = some lineFeed := by
  rw [feedsBefore, List.mem_filter, List.mem_range, beq_iff_eq]

theorem feedsAscend (text : List Char) (offset : Nat) : (feedsBefore text offset).Pairwise (· < ·) :=
  List.pairwise_lt_range.filter _

theorem feedsLater (text : List Char) {offset other : Nat} (later : offset ≤ other) :
    feedsBefore text offset <+: feedsBefore text other := by
  obtain ⟨more, rfl⟩ := Nat.exists_eq_add_of_le later
  rw [feedsBefore, feedsBefore, List.range_add, List.filter_append]
  exact List.prefix_append _ _

theorem feedsCount (text : List Char) (offset : Nat) : (feedsBefore text offset).length ≤ offset := by
  simpa [feedsBefore] using (List.range offset).length_filter_le _

theorem lineStartLe (text : List Char) (offset : Nat) : lineStart text offset ≤ offset := by
  rw [lineStart, List.getLastD_eq_getLast?]
  cases last : ((feedsBefore text offset).map (· + 1)).getLast? with
  | none => exact Nat.zero_le _
  | some start =>
    obtain ⟨place, inside, rfl⟩ := List.mem_map.mp (List.mem_of_getLast? last)
    exact (feedBefore.mp inside).1

end Text

def Position.Precedes (first second : Position) : Prop :=
  first.line < second.line ∨ first.line = second.line ∧ first.column < second.column

/-! ## The starts of the lines -/

namespace LineIndex
open Text

theorem startsFeeds (offset n : Nat) (text : List Char) :
    n ∈ startsAfter offset text ↔
      ∃ place, (bytes text)[place]? = some lineFeed ∧ n = offset + place + 1 := by
  induction text generalizing offset with
  | nil => simp [startsAfter, bytes]
  | cons c cs ih =>
    have step : n ∈ startsAfter offset (c :: cs) ↔
        c = '\n' ∧ n = offset + 1 ∨ n ∈ startsAfter (offset + c.utf8Size) cs := by
      rw [startsAfter]
      split
      · next feed =>
        obtain rfl := beq_iff_eq.mp feed
        simp [show '\n'.utf8Size = 1 from rfl]
      · next other => simp [show c ≠ '\n' from fun same => other (by simp [same])]
    rw [step, ih]
    constructor
    · rintro (⟨rfl, rfl⟩ | ⟨place, found, rfl⟩)
      · exact ⟨0, (feedPlace _ _ _).mpr (.inl ⟨rfl, rfl⟩), rfl⟩
      · refine ⟨c.utf8Size + place, (feedPlace _ _ _).mpr (.inr ⟨by omega, ?_⟩), by omega⟩
        rwa [Nat.add_sub_cancel_left]
    · rintro ⟨place, found, rfl⟩
      rcases (feedPlace _ _ _).mp found with ⟨rfl, feed⟩ | ⟨beyond, later⟩
      · exact .inl ⟨feed, rfl⟩
      · exact .inr ⟨_, later, by omega⟩

theorem startsAscend (offset : Nat) (text : List Char) : (startsAfter offset text).Pairwise (· < ·) := by
  induction text generalizing offset with
  | nil => exact .nil
  | cons c cs ih =>
    rw [startsAfter]
    split
    · exact .cons (fun n inside => (startsBounds _ cs n inside).1) (ih _)
    · exact ih _

theorem ofTextAscends (text : List Char) : (ofText text).starts.Pairwise (· < ·) :=
  .cons (fun n inside => (startsBounds 0 text n inside).1) (startsAscend 0 text)

theorem begunFilter {starts : List Nat} (ascends : starts.Pairwise (· < ·)) (offset : Nat) :
    starts.takeWhile (· ≤ offset) = starts.filter (· ≤ offset) := by
  induction ascends with
  | nil => rfl
  | @cons start rest first others ih =>
    by_cases begun : start ≤ offset
    · rw [List.takeWhile_cons_of_pos (by simpa using begun), List.filter_cons_of_pos (by simpa using begun), ih]
    · rw [List.takeWhile_cons_of_neg (by simpa using begun), List.filter_cons_of_neg (by simpa using begun)]
      refine (List.filter_eq_nil_iff.mpr fun n inside => ?_).symm
      have later := first n inside
      rw [decide_eq_true_eq]
      omega

theorem begunFeeds (text : List Char) (offset : Nat) :
    (ofText text).starts.takeWhile (· ≤ offset) = 0 :: (feedsBefore text offset).map (· + 1) := by
  -- both sides ascend, so it is enough that they have the same members
  have counted : (0 :: (feedsBefore text offset).map (· + 1)).Pairwise (· < ·) := by
    refine .cons (fun n inside => ?_) ((feedsAscend text offset).map _ fun a b less => Nat.succ_lt_succ less)
    obtain ⟨place, -, rfl⟩ := List.mem_map.mp inside
    exact Nat.succ_pos place
  rw [begunFilter (ofTextAscends text)]
  refine ((ofTextAscends text).filter _).eq_of_mem_iff counted fun n => ?_
  rw [List.mem_filter, ofText, List.mem_cons, List.mem_cons, startsFeeds, List.mem_map, decide_eq_true_eq]
  constructor
  · rintro ⟨rfl | ⟨place, found, rfl⟩, within⟩
    · exact .inl rfl
    · exact .inr ⟨place, feedBefore.mpr ⟨by omega, found⟩, by omega⟩
  · rintro (rfl | ⟨place, inside, rfl⟩)
    · exact ⟨.inl rfl, Nat.zero_le _⟩
    · obtain ⟨early, found⟩ := feedBefore.mp inside
      exact ⟨.inr ⟨place, found, by omega⟩, early⟩

/-! ## Positions -/

theorem positionFeeds (text : List Char) (offset : Nat) :
    (ofText text).position offset =
      ⟨.ofNat (1 + (feedsBefore text offset).length), .ofNat (1 + (offset - lineStart text offset)), offset⟩ := by
  rw [position, begunFeeds, List.length_cons, List.length_map, List.getLastD_cons, ← lineStart,
    Nat.add_comm 1, Nat.add_comm 1]

theorem startFound (text : List Char) (offset : Nat) :
    (ofText text).starts[(feedsBefore text offset).length]? = some (lineStart text offset) := by
  obtain ⟨more, whole⟩ := List.takeWhile_prefix (· ≤ offset) (l := (ofText text).starts)
  have last : lineStart text offset = (0 :: (feedsBefore text offset).map (· + 1)).getLastD 0 :=
    List.getLastD_cons.symm
  rw [begunFeeds] at whole
  rw [← whole, last, List.getElem?_append_left (by simp), List.getLastD_eq_getLast?,
    List.getLast?_eq_getElem?]
  simp

structure Parts (index : LineIndex) (offset count : Nat) : Prop where
  counted : count ≤ index.starts.length
  begun : ∀ start ∈ index.starts.take count, start ≤ offset
  later : ∀ start ∈ index.starts.drop count, offset < start

theorem Parts.unique {index : LineIndex} {offset count : Nat} (parts : index.Parts offset count) :
    count = (index.starts.takeWhile (· ≤ offset)).length := by
  obtain ⟨counted, begun, later⟩ := parts
  have none : (index.starts.drop count).takeWhile (· ≤ offset) = [] := by
    cases rest : index.starts.drop count with
    | nil => rfl
    | cons start more =>
      have beyond := later start (rest ▸ List.mem_cons_self)
      exact List.takeWhile_cons_of_neg (by simpa using beyond)
  have front : index.starts.takeWhile (· ≤ offset) = index.starts.take count := by
    conv_lhs => rw [← List.take_append_drop count index.starts]
    rw [List.takeWhile_append_of_pos (fun start inside => by simpa using begun start inside), none,
      List.append_nil]
  rw [front, List.length_take_of_le counted]

theorem partsBegun {index : LineIndex} (ascends : index.starts.Pairwise (· < ·)) (offset : Nat) :
    index.Parts offset (index.starts.takeWhile (· ≤ offset)).length := by
  have front : index.starts.take (index.starts.takeWhile (· ≤ offset)).length =
      index.starts.takeWhile (· ≤ offset) := (List.prefix_iff_eq_take.mp (List.takeWhile_prefix _)).symm
  refine ⟨(List.takeWhile_prefix _).length_le, ?_, ?_⟩
  · intro start inside
    rw [front] at inside
    simpa using List.mem_takeWhile_imp inside
  · intro start inside
    by_contra early
    have listed : start ∈ index.starts.take (index.starts.takeWhile (· ≤ offset)).length := by
      rw [front, begunFilter ascends]
      exact List.mem_filter.mpr ⟨List.mem_of_mem_drop inside, by simpa using early⟩
    rw [← List.take_append_drop (index.starts.takeWhile (· ≤ offset)).length index.starts,
      List.pairwise_append] at ascends
    exact Nat.lt_irrefl start (ascends.2.2 start listed start inside)

theorem partsExact (text : List Char) (offset count : Nat) :
    (ofText text).Parts offset count ↔ count = 1 + (feedsBefore text offset).length := by
  have length : ((ofText text).starts.takeWhile (· ≤ offset)).length = 1 + (feedsBefore text offset).length := by
    rw [begunFeeds, List.length_cons, List.length_map, Nat.add_comm]
  constructor
  · exact fun parts => parts.unique.trans length
  · rintro rfl
    exact length ▸ partsBegun (ofTextAscends text) offset

/-! ## Numbers of 32 bits -/

theorem lineStartZero (text : List Char) (offset : Nat) :
    lineStart text offset = 0 ↔ (feedsBefore text offset).length = 0 := by
  rw [lineStart, List.length_eq_zero_iff]
  cases feeds : feedsBefore text offset using List.reverseRecOn with
  | nil => simp
  | append_singleton front feed => simp

theorem positionExact (text : List Char) {offset : Nat} (short : offset + 1 < UInt32.size) :
    ((ofText text).position offset).line.toNat = 1 + (feedsBefore text offset).length ∧
      ((ofText text).position offset).column.toNat = 1 + (offset - lineStart text offset) := by
  have few := feedsCount text offset
  rw [positionFeeds]
  exact ⟨UInt32.toNat_ofNat_of_lt' (by omega), UInt32.toNat_ofNat_of_lt' (by omega)⟩

theorem positionEdge (text : List Char) {offset : Nat} (edge : offset + 1 = UInt32.size) :
    ((ofText text).position offset).line.toNat =
        (if (feedsBefore text offset).length = offset then 0 else 1 + (feedsBefore text offset).length) ∧
      ((ofText text).position offset).column.toNat =
        (if (feedsBefore text offset).length = 0 then 0 else 1 + (offset - lineStart text offset)) := by
  have few := feedsCount text offset
  have within := lineStartLe text offset
  have first := lineStartZero text offset
  have wrap {n : Nat} (all : n = UInt32.size) : (UInt32.ofNat n).toNat = 0 := by
    rw [all, UInt32.toNat_ofNat', UInt32.size, Nat.mod_self]
  rw [positionFeeds]
  constructor
  · split
    · exact wrap (by omega)
    · exact UInt32.toNat_ofNat_of_lt' (by omega)
  · split
    · exact wrap (by omega)
    · exact UInt32.toNat_ofNat_of_lt' (by omega)

theorem feedsOrder (text : List Char) {offset other : Nat} (less : offset < other) :
    (feedsBefore text offset).length < (feedsBefore text other).length ∨
      (feedsBefore text offset).length = (feedsBefore text other).length ∧
        lineStart text offset = lineStart text other := by
  obtain ⟨more, feeds⟩ := feedsLater text (Nat.le_of_lt less)
  cases more with
  | nil =>
    rw [List.append_nil] at feeds
    exact .inr ⟨by rw [feeds], by rw [lineStart, feeds, lineStart]⟩
  | cons feed further =>
    refine .inl ?_
    rw [← feeds, List.length_append, List.length_cons]
    omega

theorem positionPrecedes (text : List Char) {offset other : Nat} (less : offset < other)
    (short : other + 1 < UInt32.size) :
    ((ofText text).position offset).Precedes ((ofText text).position other) := by
  obtain ⟨line, column⟩ := positionExact text (show offset + 1 < UInt32.size by omega)
  obtain ⟨line', column'⟩ := positionExact text short
  have within := lineStartLe text offset
  rw [Position.Precedes, UInt32.lt_iff_toNat_lt, UInt32.lt_iff_toNat_lt, ← UInt32.toNat_inj, line, line', column,
    column']
  rcases feedsOrder text less with fewer | ⟨same, start⟩ <;> omega

theorem precedesExact (text : List Char) {offset other : Nat} (short : offset + 1 < UInt32.size)
    (short' : other + 1 < UInt32.size) :
    ((ofText text).position offset).Precedes ((ofText text).position other) ↔ offset < other := by
  refine ⟨fun before => ?_, fun less => positionPrecedes text less short'⟩
  rcases Nat.lt_trichotomy offset other with less | rfl | more
  · exact less
  · simp only [Position.Precedes, UInt32.lt_iff_toNat_lt] at before
    omega
  · have after := positionPrecedes text more short
    simp only [Position.Precedes, UInt32.lt_iff_toNat_lt, ← UInt32.toNat_inj] at before after
    omega

theorem positionDetermines (text : List Char) {offset other : Nat} (short : offset < UInt32.size)
    (short' : other < UInt32.size)
    (line : ((ofText text).position offset).line = ((ofText text).position other).line)
    (column : ((ofText text).position offset).column = ((ofText text).position other).column) :
    offset = other := by
  have apart {a b : Nat} (less : a < b) (short : b < UInt32.size)
      (line : ((ofText text).position a).line = ((ofText text).position b).line)
      (column : ((ofText text).position a).column = ((ofText text).position b).column) : False := by
    rw [← UInt32.toNat_inj] at line column
    obtain ⟨lineA, columnA⟩ := positionExact text (show a + 1 < UInt32.size by omega)
    have few := feedsCount text a
    have within := lineStartLe text a
    have within' := lineStartLe text b
    have order := feedsOrder text less
    rcases Nat.lt_or_eq_of_le (Nat.succ_le_of_lt short) with below | edge
    · obtain ⟨lineB, columnB⟩ := positionExact text below
      omega
    · obtain ⟨lineB, columnB⟩ := positionEdge text edge
      split at lineB <;> split at columnB <;> omega
  rcases Nat.lt_trichotomy offset other with less | same | more
  · exact (apart less short' line column).elim
  · exact same
  · exact (apart more short line.symm column.symm).elim

/- Below the offset 2^32 - 1 both numbers are the counts and places come in the order of their offsets. At it,
which is the end of a text of that size, one is zero if all bytes in front are line feeds or if none is. -/
theorem positionCounted (text : List Char) (offset other : Nat) :
    let place := (ofText text).position offset
    let start := lineStart text offset
    let feeds := (feedsBefore text offset).length
    let second := (ofText text).position other
    (start ≤ offset ∧ place = ⟨.ofNat (1 + feeds), .ofNat (1 + (offset - start)), offset⟩) ∧
    (∀ count, (ofText text).Parts offset count ↔ count = 1 + feeds) ∧
    (ofText text).starts[feeds]? = some start ∧
    (offset + 1 < UInt32.size → place.line.toNat = 1 + feeds ∧ place.column.toNat = 1 + (offset - start)) ∧
    (offset + 1 = UInt32.size →
      place.line.toNat = (if feeds = offset then 0 else 1 + feeds) ∧
      place.column.toNat = if feeds = 0 then 0 else 1 + (offset - start)) ∧
    (offset + 1 < UInt32.size → other + 1 < UInt32.size → (place.Precedes second ↔ offset < other)) ∧
    (offset < UInt32.size → other < UInt32.size →
      (place.line = second.line ∧ place.column = second.column ↔ offset = other)) := by
  intro place start feeds second
  refine ⟨⟨lineStartLe text offset, positionFeeds text offset⟩, partsExact text offset, startFound text offset,
    positionExact text, positionEdge text, precedesExact text, fun short short' => ?_⟩
  constructor
  · exact fun same => positionDetermines text short short' same.1 same.2
  · rintro rfl
    exact ⟨rfl, rfl⟩

theorem positionCountedFeed :
    ((ofText ['a', '\n', 'é']).position 1).Precedes ((ofText ['a', '\n', 'é']).position 2) ∧
      ((ofText ['a', '\n', 'é']).position 2).line.toNat = 2 := by
  obtain ⟨-, -, -, -, -, order, -⟩ := positionCounted ['a', '\n', 'é'] 1 2
  obtain ⟨-, -, -, counts, -, -, -⟩ := positionCounted ['a', '\n', 'é'] 2 1
  exact ⟨(order (by decide) (by decide)).mpr (by decide), (counts (by decide)).1⟩

/-! ## The largest offset -/

/- Two texts of 2^32 - 1 bytes, one without a line feed and one of nothing else. -/
theorem lastPlaceWraps :
    (∃ text, byteSize text < UInt32.size ∧
      (ofText text).position (byteSize text) = ⟨1, 0, byteSize text⟩ ∧
      ¬ ((ofText text).position 0).Precedes ((ofText text).position (byteSize text))) ∧
    ∃ text, byteSize text < UInt32.size ∧ (ofText text).position (byteSize text) = ⟨0, 1, byteSize text⟩ := by
  have wrap : UInt32.ofNat (1 + (UInt32.size - 1)) = 0 := rfl
  have place (c : Char) := positionBehind (List.prefix_refl (List.replicate (UInt32.size - 1) c))
  have first (text : List Char) := positionBehind (List.nil_prefix (l := text))
  constructor
  · refine ⟨List.replicate (UInt32.size - 1) 'a', ?_, ?_, ?_⟩
    · rw [Text.repeatedSize rfl]
      decide
    · rw [place, Position.repeatedBehind rfl, if_neg (by decide), wrap, Text.repeatedSize rfl]
    · rw [place, Position.repeatedBehind rfl, if_neg (by decide), wrap]
      have start := first (List.replicate (UInt32.size - 1) 'a')
      rw [byteSizeNil] at start
      rw [start]
      unfold Position.Precedes
      decide
  · refine ⟨List.replicate (UInt32.size - 1) '\n', ?_, ?_⟩
    · rw [Text.repeatedSize rfl]
      decide
    · rw [place, Position.repeatedBehind rfl, if_pos rfl, wrap, Text.repeatedSize rfl]

end LineIndex
end SheetLint
