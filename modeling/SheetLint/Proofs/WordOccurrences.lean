import SheetLint.Magic.Matcher
import SheetLint.Proofs.ColorHints
import SheetLint.Proofs.Splicing

/-! Words that are looked for in a value. `StandsAt` says where a word stands in a text, by the letters there
and their two neighbours; of the places that overlap, `Leftmost` keeps those that are met first from the left.
For texts of ASCII characters, the search finds a word exactly where it stands, and the replacement is put
into the leftmost places and nowhere else. -/
namespace SheetLint

def Text.isAscii (text : List Char) : Bool := text.all fun c => c.toNat < 128

namespace Word
open Text (byteSize byteSizeNil byteSizeCons byteSizeAppend isAscii sameIgnoringCase)

/- At character `i` of the text begin the letters of the word. Where the word begins or ends in a word
character, no other one stands before or behind it. -/
structure StandsAt (word text : List Char) (i : Nat) : Prop where
  letters : sameIgnoringCase ((text.drop i).take word.length) word = true
  opens : isWordChar? word.head? = true → isWordChar? (text.take i).getLast? = false
  closes : isWordChar? word.getLast? = true → isWordChar? (text.drop (i + word.length)).head? = false

/- Places of the word from character `start` on that do not overlap. Every other place of the word begins inside
one of them. -/
structure Leftmost (word text : List Char) (start : Nat) (places : List Nat) : Prop where
  stand : ∀ i ∈ places, start ≤ i ∧ StandsAt word text i
  apart : places.Pairwise fun i j => i + word.length ≤ j
  rest : ∀ i, start ≤ i → StandsAt word text i → ∃ j ∈ places, j ≤ i ∧ i < j + word.length

/-! ## Letters -/

theorem asciiCons {c : Char} {text : List Char} :
    isAscii (c :: text) = true ↔ c.toNat < 128 ∧ isAscii text = true := by
  simp [isAscii]

theorem wordCharLower (c : Char) : isWordChar c.toLower = isWordChar c :=
  ColorHint.lowerKeeps (by decide) c

theorem leastCaseAscii {c : Char} (ascii : c.toNat < 128) : (Text.leastCase c).toLower = c.toLower := by
  have all : ∀ n < 128, (Text.leastCase (Char.ofNat n)).toLower = (Char.ofNat n).toLower := by decide
  simpa using all c.toNat ascii

theorem sameLetterAscii {a b : Char} (asciiA : a.toNat < 128) (asciiB : b.toNat < 128) :
    Text.sameLetter a b = true ↔ b.toLower = a.toLower := by
  constructor
  · intro same
    rw [← leastCaseAscii asciiA, ← leastCaseAscii asciiB, beq_iff_eq.mp same]
  · exact fun same => ColorHint.sameLower same.symm

theorem beginsExact {word text : List Char} (asciiWord : isAscii word = true) (asciiText : isAscii text = true) :
    beginsWith word text = true ↔ sameIgnoringCase (text.take word.length) word = true := by
  induction word generalizing text with
  | nil => simp [beginsWith, sameIgnoringCase]
  | cons a word ih =>
    cases text with
    | nil => simp [beginsWith, sameIgnoringCase]
    | cons b text =>
      obtain ⟨asciiA, asciiWord⟩ := asciiCons.mp asciiWord
      obtain ⟨asciiB, asciiText⟩ := asciiCons.mp asciiText
      have later := ih asciiWord asciiText
      simp only [sameIgnoringCase, beq_iff_eq] at later
      simp only [beginsWith, Bool.and_eq_true, later, sameLetterAscii asciiA asciiB, sameIgnoringCase,
        List.length_cons, List.take_succ_cons, List.map_cons, beq_iff_eq, List.cons.injEq]

theorem wordCharLower? (c : Option Char) : isWordChar? (c.map Char.toLower) = isWordChar? c := by
  cases c with
  | none => rfl
  | some c => exact wordCharLower c

theorem sameEdges {part word : List Char} (same : sameIgnoringCase part word = true) :
    isWordChar? part.head? = isWordChar? word.head? ∧ isWordChar? part.getLast? = isWordChar? word.getLast? := by
  have lower : part.map Char.toLower = word.map Char.toLower := beq_iff_eq.mp same
  rw [← wordCharLower? part.head?, ← wordCharLower? word.head?, ← wordCharLower? part.getLast?,
    ← wordCharLower? word.getLast?, ← List.head?_map, ← List.head?_map, ← List.getLast?_map,
    ← List.getLast?_map, lower]
  exact ⟨rfl, rfl⟩

theorem boundaryExact {left right : Option Char} :
    (isWordChar? right = true → (isBoundary left right = true ↔ isWordChar? left = false)) ∧
      (isWordChar? left = true → (isBoundary left right = true ↔ isWordChar? right = false)) := by
  unfold isBoundary
  constructor
  · intro inside
    simp [inside]
  · intro inside
    simp [inside]

theorem occursAtExact {word front rest : List Char} (some : word ≠ []) (asciiWord : isAscii word = true)
    (asciiRest : isAscii rest = true) :
    occursAt word front.getLast? rest = true ↔ StandsAt word (front ++ rest) front.length := by
  have places : (front ++ rest).drop front.length = rest ∧ (front ++ rest).take front.length = front ∧
      (front ++ rest).drop (front.length + word.length) = rest.drop word.length := by
    simp [List.drop_append]
  have begins := beginsExact asciiWord asciiRest
  have first (letters : sameIgnoringCase (rest.take word.length) word = true) :
      isWordChar? rest.head? = isWordChar? word.head? := by
    rw [← (sameEdges letters).1, List.head?_take, if_neg (by simpa using some)]
  have last (letters : sameIgnoringCase (rest.take word.length) word = true) :
      isWordChar? (rest.take word.length).getLast? = isWordChar? word.getLast? := (sameEdges letters).2
  simp only [occursAt, Bool.and_eq_true, begins, Bool.or_eq_true, Bool.not_eq_true']
  constructor
  · intro seen
    obtain ⟨⟨letters, opens⟩, closes⟩ := seen
    refine ⟨by rwa [places.1], fun edge => ?_, fun edge => ?_⟩
    · rw [places.2.1]
      exact (boundaryExact.1 ((first letters).trans edge)).mp (opens.resolve_left (by simp [edge]))
    · rw [places.2.2]
      exact (boundaryExact.2 ((last letters).trans edge)).mp (closes.resolve_left (by simp [edge]))
  · intro stands
    have letters := stands.letters
    rw [places.1] at letters
    refine ⟨⟨letters, ?_⟩, ?_⟩
    · cases edge : isWordChar? word.head? with
      | false => exact .inl rfl
      | true =>
        have opens := stands.opens edge
        rw [places.2.1] at opens
        exact .inr ((boundaryExact.1 ((first letters).trans edge)).mpr opens)
    · cases edge : isWordChar? word.getLast? with
      | false => exact .inl rfl
      | true =>
        have closes := stands.closes edge
        rw [places.2.2] at closes
        exact .inr ((boundaryExact.2 ((last letters).trans edge)).mpr closes)

theorem StandsAt.inside {word text : List Char} {i : Nat} (stands : StandsAt word text i) :
    i + word.length ≤ text.length ∨ word = [] := by
  have lengths := congrArg List.length (beq_iff_eq.mp stands.letters)
  simp only [List.length_map, List.length_take, List.length_drop] at lengths
  cases word with
  | nil => exact .inr rfl
  | cons c word =>
    simp only [List.length_cons] at lengths ⊢
    omega

/-! ## The search -/

section Search
variable {word : List Char} (named : word ≠ []) (asciiWord : isAscii word = true)
include named asciiWord

theorem occursFromExact {front rest : List Char} (asciiRest : isAscii rest = true) :
    occursFrom word front.getLast? rest = true ↔ ∃ i, front.length ≤ i ∧ StandsAt word (front ++ rest) i := by
  induction rest generalizing front with
  | nil =>
    rw [occursFrom, occursAtExact named asciiWord asciiRest]
    constructor
    · exact fun stands => ⟨_, Nat.le_refl _, stands⟩
    · intro found
      obtain ⟨i, behind, stands⟩ := found
      have inside := stands.inside.resolve_right named
      have length := List.length_pos_iff.mpr named
      simp only [List.append_nil] at inside
      omega
  | cons c rest ih =>
    have later := @ih (front ++ [c]) (asciiCons.mp asciiRest).2
    simp only [List.getLast?_append, List.getLast?_singleton, Option.some_or, List.append_assoc,
      List.singleton_append, List.length_append, List.length_singleton] at later
    rw [occursFrom, Bool.or_eq_true, occursAtExact named asciiWord asciiRest, later]
    constructor
    · intro found
      rcases found with here | ⟨i, behind, stands⟩
      · exact ⟨_, Nat.le_refl _, here⟩
      · exact ⟨i, by omega, stands⟩
    · intro found
      obtain ⟨i, behind, stands⟩ := found
      rcases Nat.eq_or_lt_of_le behind with same | past
      · exact .inl (same ▸ stands)
      · exact .inr ⟨i, past, stands⟩

end Search

/-! ## Leftmost places -/

namespace Leftmost
variable {word text : List Char} {start : Nat} {places others : List Nat}

theorem none (named : word ≠ []) (ends : text.length ≤ start) : Leftmost word text start [] := by
  refine ⟨by simp, .nil, fun i behind stands => ?_⟩
  have inside := stands.inside.resolve_right named
  have length := List.length_pos_iff.mpr named
  omega

theorem taken (here : StandsAt word text start) (later : Leftmost word text (start + word.length) places) :
    Leftmost word text start (start :: places) := by
  refine ⟨List.forall_mem_cons.mpr ⟨⟨Nat.le_refl _, here⟩, fun i listed => ?_⟩, ?_, fun i behind stands => ?_⟩
  · obtain ⟨behind, stands⟩ := later.stand i listed
    exact ⟨by omega, stands⟩
  · exact .cons (fun j listed => (later.stand j listed).1) later.apart
  · by_cases overlaps : i < start + word.length
    · exact ⟨start, List.mem_cons_self, behind, overlaps⟩
    · obtain ⟨j, listed, reach⟩ := later.rest i (by omega) stands
      exact ⟨j, List.mem_cons_of_mem _ listed, reach⟩

theorem passed (other : ¬ StandsAt word text start) (later : Leftmost word text (start + 1) places) :
    Leftmost word text start places := by
  refine ⟨fun i listed => ?_, later.apart, fun i behind stands => ?_⟩
  · obtain ⟨behind, stands⟩ := later.stand i listed
    exact ⟨by omega, stands⟩
  · have differs : i ≠ start := fun same => other (same ▸ stands)
    exact later.rest i (by omega) stands

theorem first {i j : Nat} (leftmost : Leftmost word text start (i :: places)) (behind : start ≤ j)
    (stands : StandsAt word text j) : i ≤ j := by
  obtain ⟨k, listed, before, -⟩ := leftmost.rest j behind stands
  rcases List.mem_cons.mp listed with same | later
  · omega
  · have := List.rel_of_pairwise_cons leftmost.apart later
    omega

theorem tail {i : Nat} (leftmost : Leftmost word text start (i :: places)) :
    Leftmost word text (i + word.length) places := by
  refine ⟨fun j listed => ?_, leftmost.apart.of_cons, fun j behind stands => ?_⟩
  · exact ⟨List.rel_of_pairwise_cons leftmost.apart listed,
      (leftmost.stand j (List.mem_cons_of_mem _ listed)).2⟩
  · have own := (leftmost.stand i List.mem_cons_self).1
    obtain ⟨k, listed, reach⟩ := leftmost.rest j (by omega) stands
    rcases List.mem_cons.mp listed with same | later
    · omega
    · exact ⟨k, later, reach⟩

theorem unique (leftmost : Leftmost word text start places) (other : Leftmost word text start others) :
    places = others := by
  induction places generalizing start others with
  | nil =>
    cases others with
    | nil => rfl
    | cons j others =>
      obtain ⟨behind, stands⟩ := other.stand j List.mem_cons_self
      obtain ⟨k, listed, -⟩ := leftmost.rest j behind stands
      cases listed
  | cons i places ih =>
    obtain ⟨behind, stands⟩ := leftmost.stand i List.mem_cons_self
    cases others with
    | nil =>
      obtain ⟨k, listed, -⟩ := other.rest i behind stands
      cases listed
    | cons j others =>
      obtain ⟨behind', stands'⟩ := other.stand j List.mem_cons_self
      obtain rfl : i = j := Nat.le_antisymm (leftmost.first behind' stands') (other.first behind stands)
      rw [ih leftmost.tail other.tail]

end Leftmost

/-! ## Replacement -/

/- The places that a replacement takes, where the text begins at character `start` behind the character
`before`, and `skip` characters of it still belong to the last place. -/
def placesFrom (word : List Char) (skip : Nat) (before : Option Char) (start : Nat) : List Char → List Nat
  | [] => []
  | c :: rest =>
    if 0 < skip then placesFrom word (skip - 1) (some c) (start + 1) rest
    else if occursAt word before (c :: rest) then
      start :: placesFrom word (word.length - 1) (some c) (start + 1) rest
    else placesFrom word 0 (some c) (start + 1) rest

def placeRange (word : List Char) (i : Nat) : ByteRange := ⟨i, i + word.length⟩

section Places
variable {word : List Char} (named : word ≠ []) (asciiWord : isAscii word = true)
include named asciiWord

theorem placesLeftmost {front rest : List Char} (skip : Nat) (asciiRest : isAscii rest = true) :
    Leftmost word (front ++ rest) (front.length + skip)
      (placesFrom word skip front.getLast? front.length rest) := by
  have length := List.length_pos_iff.mpr named
  induction rest generalizing front skip with
  | nil => exact .none named (by simp)
  | cons c rest ih =>
    have later (skip : Nat) := @ih (front ++ [c]) skip (asciiCons.mp asciiRest).2
    simp only [List.getLast?_append, List.getLast?_singleton, Option.some_or, List.append_assoc,
      List.singleton_append, List.length_append, List.length_singleton] at later
    rw [placesFrom]
    split
    · next inside =>
      have next := later (skip - 1)
      rwa [show front.length + 1 + (skip - 1) = front.length + skip by omega] at next
    · next past =>
      obtain rfl : skip = 0 := by omega
      rw [Nat.add_zero]
      split
      · next here =>
        have next := later (word.length - 1)
        rw [show front.length + 1 + (word.length - 1) = front.length + word.length by omega] at next
        exact .taken ((occursAtExact named asciiWord asciiRest).mp here) next
      · next other =>
        exact .passed (fun stands => other ((occursAtExact named asciiWord asciiRest).mpr stands)) (later 0)

end Places

theorem asciiSize {text : List Char} (ascii : isAscii text = true) : byteSize text = text.length := by
  induction text with
  | nil => rfl
  | cons c text ih =>
    obtain ⟨small, ascii⟩ := asciiCons.mp ascii
    have one : c.utf8Size = 1 := Char.utf8Size_eq_one_iff.mpr (UInt32.le_iff_toNat_le.mpr (Nat.le_of_lt_succ small))
    rw [byteSizeCons, one, ih ascii, List.length_cons, Nat.add_comm]

theorem beginsLength {word text : List Char} (begins : beginsWith word text = true) :
    word.length ≤ text.length := by
  induction word generalizing text with
  | nil => exact Nat.zero_le _
  | cons a word ih =>
    cases text with
    | nil => cases begins
    | cons b text => exact Nat.succ_le_succ (ih (Bool.and_eq_true_iff.mp begins).2)

theorem splicedPlace {word replacement text out : List Char} {start : Nat} {ranges : List ByteRange}
    (fits : word.length ≤ text.length) (ascii : isAscii text = true)
    (tail : Spliced (fun _ => replacement) (start + word.length) (text.drop word.length) ranges out) :
    Spliced (fun _ => replacement) start text (placeRange word start :: ranges) (replacement ++ out) := by
  have asciiPart : isAscii (text.take word.length) = true :=
    List.all_eq_true.mpr fun c listed => List.all_eq_true.mp ascii c (List.mem_of_mem_take listed)
  have own : byteSize (text.take word.length) = word.length := by
    rw [asciiSize asciiPart, List.length_take_of_le fits]
  have cut : Spliced (fun _ => replacement) start ([] ++ (text.take word.length ++ text.drop word.length))
      (⟨start + byteSize [], start + byteSize [] + byteSize (text.take word.length)⟩ :: ranges)
      ([] ++ (replacement ++ out)) := .cut (by rwa [byteSizeNil, Nat.add_zero, own])
  rwa [List.nil_append, List.nil_append, List.take_append_drop, byteSizeNil, Nat.add_zero, own] at cut

theorem replacedPlaces {word : List Char} (named : word ≠ []) (replacement : List Char) {rest : List Char}
    (skip : Nat) (before : Option Char) (start : Nat) (ascii : isAscii rest = true) :
    Spliced (fun _ => replacement) (start + skip) (rest.drop skip)
      ((placesFrom word skip before start rest).map (placeRange word))
      (replaceFrom word replacement skip before rest) := by
  -- induction on the text: what belongs to the last place is dropped from it
  obtain ⟨fewer, size⟩ : ∃ fewer, word.length = fewer + 1 :=
    Nat.exists_eq_succ_of_ne_zero (List.length_pos_iff.mpr named).ne'
  induction rest generalizing skip before start with
  | nil =>
    have nowhere : occursAt word before [] = false := by
      obtain ⟨a, word, rfl⟩ := List.exists_cons_of_ne_nil named
      rfl
    simp only [placesFrom, replaceFrom, nowhere, Bool.and_false, Bool.false_eq_true, if_false, List.drop_nil]
    exact .done
  | cons c rest ih =>
    obtain ⟨small, asciiRest⟩ := asciiCons.mp ascii
    rw [placesFrom, replaceFrom]
    cases skip with
    | succ skip =>
      rw [if_pos (Nat.succ_pos skip), if_pos (Nat.succ_pos skip), List.drop_succ_cons, Nat.add_comm skip,
        ← Nat.add_assoc, Nat.add_sub_cancel_left]
      exact ih skip (some c) (start + 1) asciiRest
    | zero =>
      rw [if_neg (Nat.lt_irrefl 0), if_neg (Nat.lt_irrefl 0), List.drop_zero, Nat.add_zero]
      split
      · next here =>
        have fits := beginsLength (Bool.and_eq_true_iff.mp (Bool.and_eq_true_iff.mp here).1).1
        have next := ih fewer (some c) (start + 1) asciiRest
        rw [if_neg (by simpa using named), List.map_cons]
        refine splicedPlace fits ascii ?_
        rwa [size, List.drop_succ_cons, Nat.add_sub_cancel, Nat.add_comm fewer, ← Nat.add_assoc]
      · next other =>
        have next := ih 0 (some c) (start + 1) asciiRest
        have one : byteSize [c] = 1 := asciiSize (asciiCons.mpr ⟨small, rfl⟩)
        exact Spliced.behind [c] (one ▸ next)

end Word

/-! ## Word matchers -/

namespace Matcher
open Word (StandsAt Leftmost placesFrom placeRange)

theorem wordsReplacedLeftmost (matcher : Matcher) (form : matcher.strategy = .word) (named : matcher.key ≠ "")
    (asciiKey : Text.isAscii matcher.key.toList = true) (value : String)
    (asciiValue : Text.isAscii value.toList = true) :
    (matcher.test value = true ↔ ∃ i, StandsAt matcher.key.toList value.toList i) ∧
    ∃ places, Leftmost matcher.key.toList value.toList 0 places ∧
      (∀ others, Leftmost matcher.key.toList value.toList 0 others → others = places) ∧
      ∀ replacement, matcher.replacement = some replacement →
        ∃ out, matcher.replace value = some out ∧
          Spliced (fun _ => replacement.toList) 0 value.toList
            (places.map (placeRange matcher.key.toList)) out.toList ∧
          (matcher.test value = false → out = value) := by
  have letters : matcher.key.toList ≠ [] := by simpa using named
  have tested : matcher.test value = true ↔ ∃ i, StandsAt matcher.key.toList value.toList i := by
    have search := @Word.occursFromExact _ letters asciiKey [] _ asciiValue
    simpa [test, form, Engine.own, Word.occurs] using search
  have leftmost := @Word.placesLeftmost _ letters asciiKey [] _ 0 asciiValue
  refine ⟨tested, _, leftmost, fun others other => other.unique leftmost, fun replacement given => ?_⟩
  have spliced := Word.replacedPlaces letters replacement.toList 0 none 0 asciiValue
  have replaced : matcher.replace value = some (Word.replaceAll matcher.key replacement value) := by
    rw [replace, given, form]
    rfl
  refine ⟨_, replaced, by simpa [Word.replaceAll] using spliced, fun untested => ?_⟩
  have nowhere : placesFrom matcher.key.toList 0 none 0 value.toList = [] := by
    refine List.eq_nil_iff_forall_not_mem.mpr fun i listed => ?_
    have found := tested.mpr ⟨i, (leftmost.stand i listed).2⟩
    exact Bool.false_ne_true (untested.symm.trans found)
  rw [nowhere, List.map_nil] at spliced
  rw [Word.replaceAll, spliced.uncut, List.drop_zero, String.ofList_toList]

def dashMatcher : Matcher := ⟨"-a-", .word, none, some "$1", []⟩

theorem wordsReplacedOverlapping :
    dashMatcher.test "x-A-a- -a-" = true ∧ StandsAt "-a-".toList "x-A-a- -a-".toList 3 ∧
      Leftmost "-a-".toList "x-A-a- -a-".toList 0 [1, 7] ∧
      Spliced (fun _ => "$1".toList) 0 "x-A-a- -a-".toList [⟨1, 4⟩, ⟨7, 10⟩] "x$1a- $1".toList ∧
      dashMatcher.replace "x-A-a- -a-" = some "x$1a- $1" := by
  have leftmost : Leftmost "-a-".toList "x-A-a- -a-".toList 0 [1, 7] :=
    @Word.placesLeftmost "-a-".toList (by decide) (by decide) [] _ 0 (by decide)
  have replaced : dashMatcher.replace "x-A-a- -a-" = some "x$1a- $1" := by decide
  obtain ⟨tested, places, -, only, all⟩ :=
    wordsReplacedLeftmost dashMatcher rfl (by decide) (by decide) "x-A-a- -a-" (by decide)
  obtain rfl : [1, 7] = places := only [1, 7] leftmost
  obtain ⟨out, own, spliced, -⟩ := all "$1" rfl
  obtain rfl : "x$1a- $1" = out := Option.some.inj (replaced.symm.trans own)
  exact ⟨tested.mpr ⟨1, (leftmost.stand 1 (by simp)).2⟩, ⟨by decide, by decide, by decide⟩, leftmost, spliced,
    replaced⟩

end Matcher
end SheetLint
