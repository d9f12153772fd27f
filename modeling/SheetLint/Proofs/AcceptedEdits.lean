import SheetLint.Proofs.Splicing

/-! Which edits of a text are accepted. A buffer compares a new range with its two neighbours only; since the
edits it has are in order and apart from each other, a conflict with any of them shows there. So it takes and
refuses what a list of the accepted edits would, each compared with all, and its edits cut the text one behind
the other. -/
namespace SheetLint
open Text (byteSize byteSizeAppend splitAt? splitAtWhole)

namespace Text

def Between (text : List Char) (offset : Nat) : Prop :=
  ∃ front rest, text = front ++ rest ∧ byteSize front = offset

theorem betweenExact {text : List Char} {offset : Nat} :
    (splitAt? text offset).isSome = true ↔ Between text offset := by
  constructor
  · intro found
    obtain ⟨p, cut⟩ := Option.isSome_iff_exists.mp found
    obtain ⟨whole, size⟩ := splitAtWhole cut
    exact ⟨p.1, p.2, whole, size⟩
  · rintro ⟨front, rest, rfl, rfl⟩
    exact splitSome front rest

instance (text : List Char) (offset : Nat) : Decidable (Between text offset) :=
  decidable_of_iff _ betweenExact

theorem Between.inside {text : List Char} {offset : Nat} (between : Between text offset) :
    offset ≤ byteSize text := by
  obtain ⟨front, rest, rfl, rfl⟩ := between
  rw [byteSizeAppend]
  exact Nat.le_add_right _ _

theorem Between.behind {front text : List Char} {offset : Nat} (between : Between (front ++ text) offset)
    (past : byteSize front ≤ offset) :
    ∃ kept rest, text = kept ++ rest ∧ offset = byteSize front + byteSize kept := by
  obtain ⟨start, rest, whole, rfl⟩ := between
  rcases List.append_eq_append_iff.mp whole with ⟨kept, rfl, behind⟩ | ⟨more, rfl, behind⟩
  · exact ⟨kept, rest, behind, byteSizeAppend _ _⟩
  · cases more with
    | nil => exact ⟨[], text, rfl, by simp⟩
    | cons c cs =>
      have wide := Char.utf8Size_pos c
      simp only [byteSizeAppend, byteSizeCons] at past
      omega

end Text

namespace ByteRange

/- Two ranges of which only one can be replaced: they start together, or the one that starts first ends behind
the start of the other. -/
def Conflicts (a b : ByteRange) : Prop :=
  a.start = b.start ∨ (a.start < b.start ∧ b.start < a.stop) ∨ (b.start < a.start ∧ a.start < b.stop)

instance (a b : ByteRange) : Decidable (a.Conflicts b) :=
  inferInstanceAs (Decidable (_ ∨ (_ ∧ _) ∨ (_ ∧ _)))

theorem Conflicts.symm {a b : ByteRange} (conflict : a.Conflicts b) : b.Conflicts a := by
  unfold Conflicts at conflict ⊢
  omega

structure Fits (range : ByteRange) (text : List Char) : Prop where
  ordered : range.start ≤ range.stop
  begins : Text.Between text range.start
  ends : Text.Between text range.stop

instance (range : ByteRange) (text : List Char) : Decidable (range.Fits text) :=
  decidable_of_iff (range.start ≤ range.stop ∧ Text.Between text range.start ∧ Text.Between text range.stop)
    ⟨fun ⟨ordered, begins, ends⟩ => ⟨ordered, begins, ends⟩, fun ⟨ordered, begins, ends⟩ => ⟨ordered, begins, ends⟩⟩

theorem Fits.parts {range : ByteRange} {front text : List Char} (fits : range.Fits (front ++ text))
    (past : byteSize front ≤ range.start) :
    ∃ kept part rest, text = kept ++ (part ++ rest) ∧
      range = ⟨byteSize front + byteSize kept, byteSize front + byteSize kept + byteSize part⟩ := by
  obtain ⟨ordered, begins, ends⟩ := fits
  obtain ⟨kept, rest, rfl, start⟩ := begins.behind past
  rw [← List.append_assoc] at ends
  obtain ⟨part, more, rfl, stop⟩ := ends.behind (by rw [byteSizeAppend]; omega)
  rw [byteSizeAppend] at stop
  exact ⟨kept, part, more, rfl, by rw [← stop, ← start]⟩

end ByteRange

namespace EditBuffer
variable {edits earlier later : List Edit} {range : ByteRange} {source text : String}

/-! ## Neighbours -/

def Ordered (edits : List Edit) : Prop :=
  edits.Pairwise fun a b => a.range.start < b.range.start ∧ a.range.stop ≤ b.range.start

theorem startsSplit (ordered : Ordered edits) (start : Nat) :
    (∀ edit ∈ edits.takeWhile fun edit => edit.range.start < start, edit.range.start < start) ∧
      ∀ edit ∈ edits.dropWhile fun edit => edit.range.start < start, start ≤ edit.range.start := by
  constructor
  · intro edit listed
    simpa using List.mem_takeWhile_imp listed
  · induction edits with
    | nil => simp
    | cons first rest ih =>
      obtain ⟨ahead, others⟩ := List.pairwise_cons.mp ordered
      by_cases early : first.range.start < start
      · rw [List.dropWhile_cons_of_pos (by simpa using early)]
        exact ih others
      · rw [List.dropWhile_cons_of_neg (by simpa using early)]
        refine List.forall_mem_cons.mpr ⟨Nat.not_lt.mp early, fun edit listed => ?_⟩
        have := (ahead edit listed).1
        omega

theorem conflictBefore (ordered : Ordered earlier) (before : ∀ edit ∈ earlier, edit.range.start < range.start) :
    (∃ edit ∈ earlier, edit.range.Conflicts range) ↔
      ∃ edit, earlier.getLast? = some edit ∧ range.start < edit.range.stop := by
  constructor
  · rintro ⟨edit, listed, conflict⟩
    have starts := before edit listed
    have reaches : range.start < edit.range.stop := by
      unfold ByteRange.Conflicts at conflict
      omega
    cases last : earlier.getLast? with
    | none => simp [List.getLast?_eq_none_iff.mp last] at listed
    | some final =>
      obtain ⟨front, rfl⟩ := List.getLast?_eq_some_iff.mp last
      rcases List.mem_append.mp listed with ahead | own
      · have hidden := ((List.pairwise_append.mp ordered).2.2 edit ahead final (by simp)).2
        have first := before final (by simp)
        omega
      · rw [← List.mem_singleton.mp own]
        exact ⟨edit, rfl, reaches⟩
  · rintro ⟨edit, last, reaches⟩
    have listed := List.mem_of_getLast? last
    exact ⟨edit, listed, .inr (.inl ⟨before edit listed, reaches⟩)⟩

theorem conflictBehind (ordered : Ordered later) (behind : ∀ edit ∈ later, range.start ≤ edit.range.start) :
    (∃ edit ∈ later, edit.range.Conflicts range) ↔
      ∃ edit, later.head? = some edit ∧
        (edit.range.start < range.stop ∨ edit.range.start = range.start) := by
  unfold ByteRange.Conflicts
  cases later with
  | nil => simp
  | cons first rest =>
    obtain ⟨ahead, -⟩ := List.pairwise_cons.mp ordered
    have starts := behind first List.mem_cons_self
    constructor
    · rintro ⟨edit, listed, conflict⟩
      refine ⟨first, rfl, ?_⟩
      rcases List.mem_cons.mp listed with rfl | further
      · omega
      · have := (ahead edit further).1
        omega
    · rintro ⟨edit, same, reaches⟩
      obtain rfl := Option.some.inj same
      exact ⟨first, List.mem_cons_self, by omega⟩

theorem clashesExact (ordered : Ordered (earlier ++ later))
    (before : ∀ edit ∈ earlier, edit.range.start < range.start)
    (behind : ∀ edit ∈ later, range.start ≤ edit.range.start) :
    clashes range earlier later = true ↔ ∃ edit ∈ earlier ++ later, edit.range.Conflicts range := by
  obtain ⟨orderedFront, orderedBack, -⟩ := List.pairwise_append.mp ordered
  have either : (∃ edit ∈ earlier ++ later, edit.range.Conflicts range) ↔
      (∃ edit ∈ earlier, edit.range.Conflicts range) ∨ ∃ edit ∈ later, edit.range.Conflicts range := by
    simp only [List.mem_append, or_and_right, exists_or]
  rw [either, conflictBefore orderedFront before, conflictBehind orderedBack behind, clashes, Bool.or_eq_true]
  refine or_congr ?_ ?_
  · cases earlier.getLast? <;> simp
  · cases later.head? <;> simp

theorem insertOrdered (ordered : Ordered (earlier ++ later))
    (before : ∀ edit ∈ earlier, edit.range.start < range.start)
    (behind : ∀ edit ∈ later, range.start ≤ edit.range.start)
    (free : ∀ edit ∈ earlier ++ later, ¬edit.range.Conflicts range) :
    Ordered (earlier ++ ⟨range, text⟩ :: later) := by
  obtain ⟨orderedFront, orderedBack, across⟩ := List.pairwise_append.mp ordered
  unfold ByteRange.Conflicts at free
  refine List.pairwise_append.mpr ⟨orderedFront, List.pairwise_cons.mpr ⟨?_, orderedBack⟩, ?_⟩
  · intro edit listed
    have starts := behind edit listed
    have clear := free edit (List.mem_append_right _ listed)
    dsimp only
    omega
  · intro edit listed
    have starts := before edit listed
    have clear := free edit (List.mem_append_left _ listed)
    refine List.forall_mem_cons.mpr ⟨⟨starts, ?_⟩, across edit listed⟩
    dsimp only
    omega

/-! ## Verdicts -/

def refusal? (source : String) (accepted : List Edit) (range : ByteRange) : Option EditError :=
  if range.stop < range.start ∨ byteSize source.toList < range.stop then
    some (.outOfBounds range (byteSize source.toList))
  else if ¬Text.Between source.toList range.start ∨ ¬Text.Between source.toList range.stop then
    some (.notCharBoundary range)
  else if ∃ edit ∈ accepted, edit.range.Conflicts range then some (.overlap range)
  else none

theorem refusalNone {accepted : List Edit} :
    refusal? source accepted range = none ↔
      range.Fits source.toList ∧ ∀ edit ∈ accepted, ¬edit.range.Conflicts range := by
  unfold refusal?
  constructor
  · intro taken
    split at taken
    · cases taken
    · next within =>
      split at taken
      · cases taken
      · next aligned =>
        split at taken
        · cases taken
        · next free =>
          rw [not_or, not_not, not_not] at aligned
          exact ⟨⟨by omega, aligned.1, aligned.2⟩, fun edit listed conflict => free ⟨edit, listed, conflict⟩⟩
  · rintro ⟨⟨ordered, begins, ends⟩, free⟩
    have inside := ends.inside
    rw [if_neg (by omega), if_neg (by simp [begins, ends]), if_neg]
    rintro ⟨edit, listed, conflict⟩
    exact free edit listed conflict

theorem refusalPerm {accepted others : List Edit} (same : accepted.Perm others) :
    refusal? source accepted range = refusal? source others range := by
  simp only [refusal?, same.mem_iff]

theorem updateVerdict (ordered : Ordered edits) :
    update ⟨source, edits⟩ range text =
      match refusal? source edits range with
      | some error => .error error
      | none => .ok ⟨source, (edits.takeWhile fun edit => edit.range.start < range.start) ++
          ⟨range, text⟩ :: edits.dropWhile fun edit => edit.range.start < range.start⟩ := by
  obtain ⟨before, behind⟩ := startsSplit ordered range.start
  have whole := List.takeWhile_append_dropWhile (p := fun edit => edit.range.start < range.start) (l := edits)
  have clash := clashesExact (whole.symm ▸ ordered) before behind
  rw [whole] at clash
  have boundary (offset : Nat) : isBoundary ⟨source, edits⟩ offset = true ↔ Text.Between source.toList offset :=
    Text.betweenExact
  unfold update refusal? size
  simp only [Bool.or_eq_true, decide_eq_true_eq, Bool.not_eq_true', ← Bool.not_eq_true, boundary, clash]
  split
  · rfl
  · split
    · rfl
    · split <;> rfl

theorem updateAccepted (ordered : Ordered edits) (taken : refusal? source edits range = none) (text : String) :
    ∃ next, update ⟨source, edits⟩ range text = .ok ⟨source, next⟩ ∧ next.Perm (⟨range, text⟩ :: edits) ∧
      Ordered next := by
  obtain ⟨before, behind⟩ := startsSplit ordered range.start
  have whole := List.takeWhile_append_dropWhile (p := fun edit => edit.range.start < range.start) (l := edits)
  refine ⟨_, (updateVerdict ordered).trans (by rw [taken]), ?_, ?_⟩
  · exact List.perm_middle.trans (by rw [whole])
  · refine insertOrdered (whole.symm ▸ ordered) before behind ?_
    rw [whole]
    exact (refusalNone.mp taken).2

/-! ## Calls one after the other -/

def attempt (buffer : EditBuffer) (call : Edit) : EditBuffer :=
  match buffer.update call.range call.text with
  | .ok next => next
  | .error _ => buffer

def keep (source : String) (accepted : List Edit) (call : Edit) : List Edit :=
  if refusal? source accepted call.range = none then accepted ++ [call] else accepted

structure Holds (source : String) (accepted : List Edit) (buffer : EditBuffer) : Prop where
  origin : buffer.source = source
  listed : buffer.edits.Perm accepted
  ordered : Ordered buffer.edits
  fits : ∀ edit ∈ accepted, edit.range.Fits source.toList

variable {accepted : List Edit} {buffer : EditBuffer}

theorem Holds.verdict (holds : Holds source accepted buffer) (call : Edit) :
    match refusal? source accepted call.range with
    | some error => buffer.update call.range call.text = .error error
    | none => ∃ next, buffer.update call.range call.text = .ok next ∧
        Holds source (accepted ++ [call]) next := by
  obtain ⟨own, edits⟩ := buffer
  obtain ⟨rfl, listed, ordered, fits⟩ := holds
  rw [← refusalPerm listed]
  split
  · next refused => exact (updateVerdict ordered).trans (by rw [refused])
  · next taken =>
    obtain ⟨next, updated, added, ordered⟩ := updateAccepted ordered taken call.text
    refine ⟨_, updated, rfl, ?_, ordered, ?_⟩
    · exact added.trans ((listed.cons call).trans (List.perm_append_singleton _ _).symm)
    · exact List.forall_mem_append.mpr ⟨fits, by simpa using (refusalNone.mp taken).1⟩

theorem Holds.attempt (holds : Holds source accepted buffer) (call : Edit) :
    Holds source (keep source accepted call) (buffer.attempt call) := by
  have verdict := holds.verdict call
  unfold keep EditBuffer.attempt
  split at verdict
  · next judged =>
    rw [judged, verdict, if_neg (by simp)]
    exact holds
  · next judged =>
    obtain ⟨next, updated, held⟩ := verdict
    rw [judged, updated, if_pos rfl]
    exact held

theorem Holds.attempts (holds : Holds source accepted buffer) (calls : List Edit) :
    Holds source (calls.foldl (keep source) accepted) (calls.foldl EditBuffer.attempt buffer) := by
  induction calls generalizing accepted buffer with
  | nil => exact holds
  | cons call calls ih => exact ih (holds.attempt call)

theorem Holds.start (source : String) : Holds source [] ⟨source, []⟩ :=
  ⟨rfl, .refl _, .nil, by simp⟩

/-! ## Putting the text together -/

/- The text put together from parts of the unedited one, from byte `cursor` on. It fails if some part ends
before it begins, lies outside of the text or splits a character. -/
def assemble? (source : List Char) (cursor : Nat) : List Edit → Option (List Char)
  | [] => Text.slice? source cursor (byteSize source)
  | edit :: rest =>
    (Text.slice? source cursor edit.range.start).bind fun kept =>
      (assemble? source edit.range.stop rest).map fun more => kept ++ (edit.text.toList ++ more)

inductive Divided : Nat → List Char → List Edit → Prop where
  | done {pos text} : Divided pos text []
  | cut {pos kept part rest edits} (new : String)
      (tail : Divided (pos + byteSize kept + byteSize part) rest edits) :
      Divided pos (kept ++ (part ++ rest))
        (⟨⟨pos + byteSize kept, pos + byteSize kept + byteSize part⟩, new⟩ :: edits)

theorem orderedDivided {front text : List Char} (ordered : Ordered edits)
    (fits : ∀ edit ∈ edits, edit.range.Fits (front ++ text))
    (past : ∀ edit ∈ edits, byteSize front ≤ edit.range.start) : Divided (byteSize front) text edits := by
  -- induction on the edits: `front` is what stands before the end of the last one
  induction edits generalizing front text with
  | nil => exact .done
  | cons edit edits ih =>
    obtain ⟨ahead, others⟩ := List.pairwise_cons.mp ordered
    obtain ⟨own, othersFit⟩ := List.forall_mem_cons.mp fits
    obtain ⟨kept, part, rest, rfl, place⟩ := own.parts (past edit List.mem_cons_self)
    obtain ⟨range, new⟩ := edit
    dsimp only at place
    subst place
    have whole : front ++ (kept ++ (part ++ rest)) = (front ++ (kept ++ part)) ++ rest := by simp
    have size : byteSize (front ++ (kept ++ part)) = byteSize front + byteSize kept + byteSize part := by
      simp [Nat.add_assoc]
    have tail := @ih (front ++ (kept ++ part)) rest others (whole ▸ othersFit)
      (fun edit listed => size ▸ (ahead edit listed).2)
    rw [size] at tail
    exact .cut new tail

theorem Holds.divided (holds : Holds source accepted buffer) : Divided 0 source.toList buffer.edits :=
  @orderedDivided buffer.edits [] source.toList holds.ordered
    (fun edit here => holds.fits edit (holds.listed.mem_iff.mp here)) (by simp)

theorem Divided.assembles {pos : Nat} {text : List Char} (divided : Divided pos text edits) (front : List Char)
    (here : pos = byteSize front) : assemble? (front ++ text) pos edits = some (splice pos text edits) := by
  induction divided generalizing front with
  | @done pos text =>
    have rest := Text.sliceAppend front text []
    rw [List.append_nil, ← byteSizeAppend, ← here] at rest
    exact rest
  | @cut pos kept part rest edits new tail ih =>
    subst here
    have whole : front ++ (kept ++ (part ++ rest)) = (front ++ (kept ++ part)) ++ rest := by simp
    have more := ih (front ++ (kept ++ part)) (by simp [Nat.add_assoc])
    rw [← whole] at more
    rw [assemble?, Text.sliceAppend, spliceFirst, more]
    rfl

theorem Holds.finished (holds : Holds source accepted buffer) :
    buffer.finish.toList = splice 0 source.toList buffer.edits := by
  rw [finish, String.toList_ofList, holds.origin]

theorem callsJudged (source : String) (calls : List Edit) (call : Edit) :
    let accepted := calls.foldl (keep source) []
    let buffer := calls.foldl attempt ⟨source, []⟩
    (∀ error, buffer.update call.range call.text = .error error ↔
      refusal? source accepted call.range = some error) ∧
    (∀ error, buffer.update call.range call.text = .error error → buffer.attempt call = buffer) ∧
    buffer.edits.Perm accepted ∧ Ordered buffer.edits ∧
    assemble? source.toList 0 buffer.edits = some buffer.finish.toList := by
  intro accepted buffer
  have holds : Holds source accepted buffer := (Holds.start source).attempts calls
  refine ⟨fun error => ?_, fun error refused => by rw [attempt, refused], holds.listed, holds.ordered,
    holds.finished ▸ holds.divided.assembles [] rfl⟩
  have verdict := holds.verdict call
  split at verdict
  · next reason judged => rw [verdict, judged, Except.error.injEq, Option.some.injEq]
  · next judged =>
    obtain ⟨next, updated, -⟩ := verdict
    rw [updated, judged]
    exact ⟨nofun, nofun⟩

def touchingCalls : List Edit := [⟨⟨1, 3⟩, "x"⟩, ⟨⟨2, 4⟩, "y"⟩, ⟨⟨3, 3⟩, "z"⟩]

theorem callsJudgedTouching :
    let buffer := touchingCalls.foldl attempt ⟨"aéb", []⟩
    buffer.update ⟨1, 1⟩ "w" = .error (.overlap ⟨1, 1⟩) ∧ buffer.attempt ⟨⟨1, 1⟩, "w"⟩ = buffer ∧
      buffer.edits.Perm [⟨⟨1, 3⟩, "x"⟩, ⟨⟨3, 3⟩, "z"⟩] := by
  obtain ⟨judged, unchanged, listed, -⟩ := callsJudged "aéb" touchingCalls ⟨⟨1, 1⟩, "w"⟩
  have refused := (judged (.overlap ⟨1, 1⟩)).mpr (by decide)
  exact ⟨refused, unchanged _ refused, listed⟩

end EditBuffer
end SheetLint
