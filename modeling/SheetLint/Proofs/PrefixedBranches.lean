import SheetLint.Combinator.Rule
import SheetLint.Proofs.Splicing
import SheetLint.Proofs.Trimming
import SheetLint.Value.Lexeme

/-! Where a combinator is put into a selector. Every comma ends a branch, and the combinator goes in front of the
first character of each branch that is no blank; without these insertions the selector is as it was. Commas inside
of parentheses, brackets and quotes end a branch too, so the branches are those of the selector only where no comma
stands inside of anything. -/
namespace SheetLint
open Text (byteSize byteSizeNil byteSizeCons byteSizeAppend isBlank)

/-! ## Where branches begin -/

/- Nothing but blanks has come since the text began or a branch ended. Of a comma, `divides` says by the text in
front of it whether it ends a branch. -/
def Fresh (divides : List Char → Prop) (front : List Char) : Prop :=
  ∃ before blanks, front = before ++ blanks ∧ (∀ c ∈ blanks, isBlank c = true) ∧
    (before = [] ∨ ∃ early, before = early ++ [','] ∧ divides early)

def BranchAt (divides : List Char → Prop) (text : List Char) (place : Nat) : Prop :=
  ∃ front c rest, text = front ++ c :: rest ∧ place = byteSize front ∧ Fresh divides front ∧
    isBlank c = false ∧ ¬(c = ',' ∧ divides front)

def everywhere (_ : List Char) : Prop := True

theorem freshSnoc {divides : List Char → Prop} {front : List Char} {c : Char} :
    Fresh divides (front ++ [c]) ↔ c = ',' ∧ divides front ∨ isBlank c = true ∧ Fresh divides front := by
  constructor
  · intro fresh
    obtain ⟨before, blanks, whole, blank, begins⟩ := fresh
    rcases List.eq_nil_or_concat blanks with none | ⟨others, last, some⟩
    · subst none
      rcases begins with empty | ⟨early, comma, ends⟩
      · simp [empty] at whole
      · rw [comma, List.append_nil] at whole
        obtain ⟨rfl, same⟩ := List.append_inj' whole rfl
        exact .inl ⟨List.singleton_inj.mp same, ends⟩
    · rw [List.concat_eq_append] at some
      subst some
      rw [← List.append_assoc] at whole
      obtain ⟨rfl, same⟩ := List.append_inj' whole rfl
      rw [List.singleton_inj.mp same]
      obtain ⟨blank, own⟩ := List.forall_mem_append.mp blank
      exact .inr ⟨own last (List.mem_singleton_self last), before, others, rfl, blank, begins⟩
  · intro found
    rcases found with ⟨comma, ends⟩ | ⟨blank, before, blanks, rfl, all, begins⟩
    · exact ⟨front ++ [c], [], by simp, by simp, .inr ⟨front, by rw [comma], ends⟩⟩
    · refine ⟨before, blanks ++ [c], by simp, List.forall_mem_append.mpr ⟨all, ?_⟩, begins⟩
      simpa using blank

def branchPlaces (fresh : Bool) (pos : Nat) : List Char → List Nat
  | [] => []
  | c :: rest =>
    if c = ',' then branchPlaces true (pos + c.utf8Size) rest
    else if isBlank c then branchPlaces fresh (pos + c.utf8Size) rest
    else if fresh then pos :: branchPlaces false (pos + c.utf8Size) rest
    else branchPlaces false (pos + c.utf8Size) rest

def BegunIn (front rest : List Char) (place : Nat) : Prop :=
  ∃ inner c more, rest = inner ++ c :: more ∧ place = byteSize (front ++ inner) ∧
    Fresh everywhere (front ++ inner) ∧ isBlank c = false ∧ c ≠ ','

theorem begunCons {front rest : List Char} {d : Char} {place : Nat} :
    BegunIn front (d :: rest) place ↔
      place = byteSize front ∧ Fresh everywhere front ∧ isBlank d = false ∧ d ≠ ',' ∨
        BegunIn (front ++ [d]) rest place := by
  constructor
  · intro begun
    obtain ⟨inner, c, more, whole, here⟩ := begun
    cases inner with
    | nil =>
      obtain ⟨rfl, rfl⟩ := List.cons.inj whole
      exact .inl (by simpa using here)
    | cons e inner =>
      obtain ⟨rfl, rfl⟩ := List.cons.inj whole
      exact .inr ⟨inner, c, more, rfl, by simpa using here⟩
  · intro begun
    rcases begun with here | ⟨inner, c, more, rfl, later⟩
    · exact ⟨[], d, rest, rfl, by simpa using here⟩
    · exact ⟨d :: inner, c, more, rfl, by simpa using later⟩

theorem branchPlacesBegun {fresh : Bool} {front rest : List Char} (known : fresh = true ↔ Fresh everywhere front)
    {place : Nat} : place ∈ branchPlaces fresh (byteSize front) rest ↔ BegunIn front rest place := by
  induction rest generalizing fresh front with
  | nil => simp [branchPlaces, BegunIn]
  | cons d rest ih =>
    have next {fresh : Bool} (known : fresh = true ↔ Fresh everywhere (front ++ [d])) :
        place ∈ branchPlaces fresh (byteSize front + d.utf8Size) rest ↔ BegunIn (front ++ [d]) rest place := by
      rw [← ih known, byteSizeAppend, byteSizeCons, byteSizeNil, Nat.add_zero]
    rw [begunCons, branchPlaces]
    split
    · next comma =>
      have later := @next true (by simp [freshSnoc, everywhere, comma])
      subst comma
      simpa using later
    split
    · next comma blank =>
      have later := @next fresh (by simp [freshSnoc, everywhere, comma, blank, known])
      simpa [blank] using later
    split
    · next comma visible begun =>
      have later := @next false (by simp [freshSnoc, everywhere, comma, visible])
      simp [later, comma, visible, known.mp begun]
    · next comma visible begun =>
      have later := @next false (by simp [freshSnoc, everywhere, comma, visible])
      simp [later, mt known.mpr begun]

theorem branchPlacesAscend (fresh : Bool) (pos : Nat) (text : List Char) :
    (∀ place ∈ branchPlaces fresh pos text, pos ≤ place) ∧ (branchPlaces fresh pos text).Pairwise (· < ·) := by
  induction text generalizing fresh pos with
  | nil => simp [branchPlaces]
  | cons c text ih =>
    have width : 0 < c.utf8Size := c.utf8Size_pos
    have behind (fresh : Bool) (place : Nat) (found : place ∈ branchPlaces fresh (pos + c.utf8Size) text) :
        pos < place := by
      have least := (ih fresh (pos + c.utf8Size)).1 place found
      omega
    have later (fresh : Bool) :
        (∀ place ∈ branchPlaces fresh (pos + c.utf8Size) text, pos ≤ place) ∧
          (branchPlaces fresh (pos + c.utf8Size) text).Pairwise (· < ·) :=
      ⟨fun place found => (behind fresh place found).le, (ih fresh _).2⟩
    rw [branchPlaces]
    split
    · exact later true
    split
    · exact later fresh
    split
    · refine ⟨List.forall_mem_cons.mpr ⟨Nat.le_refl pos, (later false).1⟩, ?_⟩
      exact List.pairwise_cons.mpr ⟨behind false, (later false).2⟩
    · exact later false

theorem branchPlacesExact {text : List Char} {place : Nat} :
    place ∈ branchPlaces true 0 text ↔ BranchAt everywhere text place := by
  have fresh : Fresh everywhere [] := ⟨[], [], rfl, by simp, .inl rfl⟩
  have begun := @branchPlacesBegun true [] text (by simp [fresh]) place
  rw [byteSizeNil] at begun
  rw [begun]
  simp [BegunIn, BranchAt, everywhere]

/-! ## Insertions -/

def insertionAt (place : Nat) : ByteRange := ⟨place, place⟩

def insertedRanges (size moved : Nat) : List Nat → List ByteRange
  | [] => []
  | place :: places => ⟨place + moved, place + moved + size⟩ :: insertedRanges size (moved + size) places

theorem Spliced.takenBack {mark text out : List Char} {pos : Nat} {places : List Nat}
    (spliced : Spliced (fun _ => mark) pos text (places.map insertionAt) out) (moved : Nat) :
    Spliced (fun _ => []) (pos + moved) out (insertedRanges (byteSize mark) moved places) text := by
  induction places generalizing pos text out moved with
  | nil =>
    rw [spliced.uncut]
    exact .done
  | cons place places ih =>
    rw [List.map_cons] at spliced
    generalize all : insertionAt place :: places.map insertionAt = ranges at spliced
    cases spliced with
    | done => cases all
    | @cut _ kept part rest ranges out tail =>
      obtain ⟨point, rfl⟩ := List.cons.inj all
      obtain ⟨rfl, here⟩ := ByteRange.mk.inj point
      have none : part = [] := by
        by_contra some
        have size := Text.byteSizePos some
        omega
      subst none
      have back := ih tail (moved + byteSize mark)
      rw [byteSizeNil, Nat.add_zero] at back
      rw [insertedRanges, Nat.add_right_comm pos]
      refine .cut ?_
      rwa [Nat.add_right_comm pos, Nat.add_assoc (pos + byteSize kept)]

namespace CombinatorRule

def prefixFresh (combinator : List Char) (fresh : Bool) (branch : List Char) : List Char :=
  if fresh then prefixBranch combinator branch else branch

section Branches
variable {combinator branch : List Char} {fresh : Bool} {c : Char}

theorem prefixFreshNone : prefixFresh combinator fresh [] = [] := by
  cases fresh <;> rfl

theorem prefixFreshBlank (blank : isBlank c = true) :
    prefixFresh combinator fresh (c :: branch) = c :: prefixFresh combinator fresh branch := by
  have start : Text.trimStart (c :: branch) = Text.trimStart branch := List.dropWhile_cons_of_pos blank
  have front : Text.leading (c :: branch) = c :: Text.leading branch := List.takeWhile_cons_of_pos blank
  cases fresh with
  | false => rfl
  | true =>
    simp only [prefixFresh, if_true, prefixBranch, start, front]
    split <;> rfl

theorem prefixFreshVisible (visible : isBlank c = false) :
    prefixFresh combinator true (c :: branch) = combinator ++ [' '] ++ c :: branch := by
  have start : Text.trimStart (c :: branch) = c :: branch := List.dropWhile_cons_of_neg (by simp [visible])
  have front : Text.leading (c :: branch) = [] := List.takeWhile_cons_of_neg (by simp [visible])
  simp [prefixFresh, prefixBranch, start, front]

end Branches

theorem joinFirst (front branch : List Char) (branches : List (List Char)) :
    List.intercalate [','] ((front ++ branch) :: branches) =
      front ++ List.intercalate [','] (branch :: branches) := by
  cases branches with
  | nil => simp
  | cons next branches => simp [List.intercalate_cons_cons]

theorem prefixedSpliced (combinator : List Char) {text branch : List Char} {branches : List (List Char)}
    (split : Text.splitOn ',' text = branch :: branches) (fresh : Bool) (pos : Nat) :
    Spliced (fun _ => combinator ++ [' ']) pos text ((branchPlaces fresh pos text).map insertionAt)
      (List.intercalate [','] (prefixFresh combinator fresh branch :: branches.map (prefixBranch combinator))) := by
  -- induction on the text, in which the first branch may have begun before
  induction text generalizing branch branches fresh pos with
  | nil =>
    cases split
    rw [prefixFreshNone]
    exact .done
  | cons c text ih =>
    obtain ⟨next, others, rest⟩ := Text.splitOnCons ',' text
    have behind (fresh : Bool) := (ih rest fresh (pos + byteSize [c])).behind [c]
    rw [show byteSize [c] = c.utf8Size by simp] at behind
    rw [Text.splitOn, rest] at split
    rw [branchPlaces]
    by_cases comma : c = ','
    · subst comma
      obtain ⟨rfl, rfl⟩ := List.cons.inj split
      rw [prefixFreshNone]
      exact behind true
    rw [if_neg (by simpa using comma)] at split
    obtain ⟨rfl, rfl⟩ := List.cons.inj split
    rw [if_neg comma]
    have first (branch : List Char) := joinFirst [c] branch (others.map (prefixBranch combinator))
    split
    · next blank =>
      rw [prefixFreshBlank blank]
      exact first _ ▸ behind fresh
    · next visible =>
      rw [Bool.not_eq_true] at visible
      cases fresh with
      | false => exact first next ▸ behind false
      | true =>
        rw [prefixFreshVisible visible, joinFirst]
        exact first next ▸ @Spliced.cut _ pos [] [] (c :: text) _ _ (behind false)

end CombinatorRule

/-! ## Commas inside of something -/

theorem sameFront {front other rest more : List Char} (whole : front ++ rest = other ++ more)
    (size : byteSize front = byteSize other) : other = front := by
  have cut := Text.splitAtSize front rest
  rw [whole, size, Text.splitAtSize] at cut
  exact (Prod.mk.inj (Option.some.inj cut)).1

/- What has been opened and is not closed yet. In quotes, the character behind a backslash closes nothing. -/
inductive Enclosure
  | round
  | square
  | quoted (mark : Char) (quote : Lexeme.isQuote mark = true)
  | escaped (mark : Char) (quote : Lexeme.isQuote mark = true)
  deriving DecidableEq

namespace Enclosure

def close (bracket : Char) : List Enclosure → Option (List Enclosure)
  | .round :: outer => if bracket = ')' then some outer else none
  | .square :: outer => if bracket = ']' then some outer else none
  | _ => none

def step : List Enclosure → Char → Option (List Enclosure)
  | .escaped mark quote :: outer, _ => some (.quoted mark quote :: outer)
  | .quoted mark quote :: outer, c =>
    if c = mark then some outer
    else if c = '\\' then some (.escaped mark quote :: outer)
    else some (.quoted mark quote :: outer)
  | inner, c =>
    if quote : Lexeme.isQuote c = true then some (.quoted c quote :: inner)
    else if c = '(' then some (.round :: inner)
    else if c = '[' then some (.square :: inner)
    else if c = ')' ∨ c = ']' then close c inner
    else some inner

def after (inner : List Enclosure) (text : List Char) : Option (List Enclosure) :=
  text.foldlM step inner

def Balanced (text : List Char) : Prop := after [] text = some []

instance : DecidablePred Balanced := fun text => inferInstanceAs (Decidable (after [] text = some []))

def CommasOutside (text : List Char) : Prop :=
  ∀ n < text.length, text[n]? = some ',' → Balanced (text.take n)

instance : DecidablePred CommasOutside := fun text =>
  inferInstanceAs (Decidable (∀ n < text.length, text[n]? = some ',' → Balanced (text.take n)))

theorem commasOutsideExact {text : List Char} :
    CommasOutside text ↔ ∀ front rest, text = front ++ ',' :: rest → Balanced front := by
  constructor
  · intro outside front rest whole
    subst whole
    have own := outside front.length (by simp) (by simp)
    rwa [List.take_left] at own
  · intro outside n bound comma
    obtain ⟨_, own⟩ := List.getElem?_eq_some_iff.mp comma
    refine outside (text.take n) (text.drop (n + 1)) ?_
    rw [← own, List.getElem_cons_drop, List.take_append_drop]

theorem afterAppend (inner : List Enclosure) (front rest : List Char) :
    after inner (front ++ rest) = (after inner front).bind fun inner => after inner rest :=
  List.foldlM_append

theorem afterCons (inner : List Enclosure) (c : Char) (rest : List Char) :
    after inner (c :: rest) = (step inner c).bind fun inner => after inner rest := rfl

theorem afterSnoc (inner : List Enclosure) (front : List Char) (c : Char) :
    after inner (front ++ [c]) = (after inner front).bind fun inner => step inner c := by
  rw [afterAppend]
  congr 1
  funext inner
  rw [afterCons]
  cases step inner c <;> rfl

theorem stepKept {inner next : List Enclosure} {c : Char} (passed : c = ',' ∨ isBlank c = true)
    (stepped : step inner c = some next) (opened : inner ≠ []) : next ≠ [] := by
  have other {mark : Char} (visible : isBlank mark = false) (comma : mark ≠ ',') : c ≠ mark := by
    intro same
    subst same
    rcases passed with own | blank
    · exact comma own
    · exact Bool.false_ne_true (visible.symm.trans blank)
  have quote {mark : Char} (quote : Lexeme.isQuote mark = true) : c ≠ mark := by
    rcases Bool.or_eq_true_iff.mp quote with double | single
    · rw [beq_iff_eq.mp double]
      exact other rfl (by decide)
    · rw [beq_iff_eq.mp single]
      exact other rfl (by decide)
  unfold step at stepped
  split at stepped
  · cases stepped
    exact List.cons_ne_nil _ _
  · next mark own outer =>
    rw [if_neg (quote own)] at stepped
    split at stepped <;> cases stepped <;> exact List.cons_ne_nil _ _
  · have plain : ¬Lexeme.isQuote c = true := by
      intro own
      exact quote own rfl
    have closing : ¬(c = ')' ∨ c = ']') := by
      simp [@other ')' rfl (by decide), @other ']' rfl (by decide)]
    rw [dif_neg plain, if_neg (other rfl (by decide)), if_neg (other rfl (by decide)), if_neg closing] at stepped
    cases stepped
    exact opened

theorem insideComma {front : List Char} (inside : ¬Balanced front) : ¬Fresh Balanced (front ++ [',']) := by
  have visible : isBlank ',' = false := rfl
  simp [freshSnoc, inside, visible]

theorem insideBranch {inner : List Enclosure} {front rest : List Char} (known : after [] front = some inner)
    (opened : inner ≠ []) (fresh : Fresh everywhere front) (inside : ¬Fresh Balanced front)
    (closed : after inner rest = some []) :
    ∃ place, BranchAt everywhere (front ++ rest) place ∧ ¬BranchAt Balanced (front ++ rest) place := by
  -- induction on what is left: before all is closed, something has to be seen that is neither a comma nor a
  -- blank, and what is seen first begins a branch
  induction rest generalizing inner front with
  | nil => exact absurd (Option.some.inj closed) opened
  | cons c rest ih =>
    rw [afterCons] at closed
    obtain ⟨next, stepped, closed⟩ := Option.bind_eq_some_iff.mp closed
    have further : after [] (front ++ [c]) = some next := by
      rw [afterSnoc, known]
      exact stepped
    have unbalanced : ¬Balanced front := by
      intro balanced
      exact opened (Option.some.inj (known.symm.trans balanced))
    by_cases passed : c = ',' ∨ isBlank c = true
    · rw [List.append_cons]
      refine ih further (stepKept passed stepped opened) (freshSnoc.mpr ?_) ?_ closed
      · rcases passed with comma | blank
        · exact .inl ⟨comma, trivial⟩
        · exact .inr ⟨blank, fresh⟩
      · simp [freshSnoc, unbalanced, inside]
    · obtain ⟨comma, visible⟩ := not_or.mp passed
      rw [Bool.not_eq_true] at visible
      refine ⟨byteSize front, ⟨front, c, rest, rfl, rfl, fresh, visible, fun ends => comma ends.1⟩, ?_⟩
      intro branch
      obtain ⟨other, d, more, whole, size, begins, -⟩ := branch
      exact inside (sameFront whole size ▸ begins)

theorem branchOutside {text : List Char} (outside : CommasOutside text) {place : Nat} :
    BranchAt everywhere text place ↔ BranchAt Balanced text place := by
  rw [commasOutsideExact] at outside
  constructor
  · intro branch
    obtain ⟨front, c, rest, rfl, size, fresh, visible, comma⟩ := branch
    refine ⟨front, c, rest, rfl, size, ?_, visible, fun ends => comma ⟨ends.1, trivial⟩⟩
    obtain ⟨before, blanks, rfl, blank, begins⟩ := fresh
    refine ⟨before, blanks, rfl, blank, begins.imp_right ?_⟩
    intro found
    obtain ⟨early, rfl, -⟩ := found
    exact ⟨early, rfl, outside early (blanks ++ c :: rest) (by simp)⟩
  · intro branch
    obtain ⟨front, c, rest, rfl, size, fresh, visible, comma⟩ := branch
    refine ⟨front, c, rest, rfl, size, ?_, visible, fun ends => comma ⟨ends.1, ?_⟩⟩
    · obtain ⟨before, blanks, whole, blank, begins⟩ := fresh
      refine ⟨before, blanks, whole, blank, begins.imp_right ?_⟩
      intro found
      obtain ⟨early, ends, -⟩ := found
      exact ⟨early, ends, trivial⟩
    · rw [ends.1] at outside
      exact outside front rest rfl

theorem branchesExact {text : List Char} (balanced : Balanced text) :
    (∀ place, BranchAt everywhere text place ↔ BranchAt Balanced text place) ↔ CommasOutside text := by
  constructor
  · intro same
    rw [commasOutsideExact]
    intro front rest whole
    subst whole
    by_contra inside
    rw [Balanced, List.append_cons, afterAppend, afterSnoc] at balanced
    obtain ⟨next, passed, closed⟩ := Option.bind_eq_some_iff.mp balanced
    obtain ⟨inner, known, stepped⟩ := Option.bind_eq_some_iff.mp passed
    have opened : inner ≠ [] := by
      intro none
      exact inside (known.trans (congrArg some none))
    have known : after [] (front ++ [',']) = some next := by rw [afterSnoc, known]; exact stepped
    obtain ⟨place, begun, unseen⟩ := insideBranch known (stepKept (.inl rfl) stepped opened)
      (freshSnoc.mpr (.inl ⟨rfl, trivial⟩)) (insideComma inside) closed
    rw [← List.append_cons] at begun unseen
    exact unseen ((same place).mp begun)
  · intro outside place
    exact branchOutside outside

end Enclosure

namespace CombinatorRule
open Enclosure (Balanced CommasOutside)

/- The combinator and a blank stand in front of every branch that can be seen, and nothing else has changed. Of a
text in which all is closed these are the branches as it means them exactly when no comma is inside of anything. -/
theorem prefixedExactly (combinator selector : String) :
    ∃ places : List Nat,
      (∀ place, place ∈ places ↔ BranchAt everywhere selector.toList place) ∧ places.Pairwise (· < ·) ∧
      Spliced (fun _ => combinator.toList ++ [' ']) 0 selector.toList (places.map insertionAt)
        (prefixBranches combinator selector).toList ∧
      Spliced (fun _ => []) 0 (prefixBranches combinator selector).toList
        (insertedRanges (byteSize (combinator.toList ++ [' '])) 0 places) selector.toList ∧
      (Balanced selector.toList →
        ((∀ place, place ∈ places ↔ BranchAt Balanced selector.toList place) ↔ CommasOutside selector.toList)) := by
  obtain ⟨branch, branches, split⟩ := Text.splitOnCons ',' selector.toList
  have spliced := prefixedSpliced combinator.toList split true 0
  have whole : (prefixBranches combinator selector).toList = List.intercalate [',']
      (prefixFresh combinator.toList true branch :: branches.map (prefixBranch combinator.toList)) := by
    rw [prefixBranches, split, String.toList_ofList]
    rfl
  rw [← whole] at spliced
  refine ⟨branchPlaces true 0 selector.toList, fun place => branchPlacesExact, (branchPlacesAscend true 0 _).2,
    spliced, spliced.takenBack 0, ?_⟩
  intro balanced
  simp only [branchPlacesExact]
  exact Enclosure.branchesExact balanced

theorem prefixedBrackets :
    Balanced ":not([x=\"(\"]), , .b".toList ∧ CommasOutside ":not([x=\"(\"]), , .b".toList ∧
      ∃ places : List Nat,
        (∀ place, place ∈ places ↔ BranchAt Balanced ":not([x=\"(\"]), , .b".toList place) ∧
        Spliced (fun _ => "> ".toList) 0 ":not([x=\"(\"]), , .b".toList (places.map insertionAt)
          (prefixBranches ">" ":not([x=\"(\"]), , .b").toList := by
  have balanced : Balanced ":not([x=\"(\"]), , .b".toList := by decide
  have outside : CommasOutside ":not([x=\"(\"]), , .b".toList := by decide
  obtain ⟨places, -, -, spliced, -, exactly⟩ := prefixedExactly ">" ":not([x=\"(\"]), , .b"
  exact ⟨balanced, outside, places, (exactly balanced).mpr outside, spliced⟩

/- A comma between brackets ends a branch, and what follows it is taken for the next one. -/
theorem innerCommaDivides :
    Balanced ":is(.b, .c)".toList ∧ ¬BranchAt Balanced ":is(.b, .c)".toList 8 ∧
      prefixBranches ">" ":is(.b, .c)" = "> :is(.b, > .c)" := by
  have inside : ¬Fresh Balanced (":is(.b".toList ++ [',']) := Enclosure.insideComma (by decide)
  have begun : ¬Fresh Balanced (":is(.b".toList ++ [','] ++ [' ']) := by
    rw [freshSnoc]
    exact not_or.mpr ⟨fun comma => absurd comma.1 (by decide), fun blank => inside blank.2⟩
  refine ⟨by decide, ?_, by decide⟩
  intro branch
  obtain ⟨front, c, rest, whole, size, fresh, -⟩ := branch
  have same : ":is(.b".toList ++ [','] ++ [' '] ++ ".c)".toList = front ++ c :: rest := whole
  exact begun (sameFront same size ▸ fresh)

end CombinatorRule
end SheetLint
