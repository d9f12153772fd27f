import Mathlib.Data.List.Nodup
import SheetLint.Proofs.AcceptedEdits

/-! Edits in any order. Edits without a conflict are all accepted, whatever the order they are recorded in, and
make the text that splicing them in one by one from the right makes. So what comes of replacing ranges is a
matter of the ranges, not of their order. -/
namespace SheetLint
open Text (byteSize byteSizeAppend)

/-! ## Splicing one by one -/

def Edit.spliceInto? (text : List Char) (edit : Edit) : Option (List Char) :=
  (Text.slice? text 0 edit.range.start).bind fun front =>
    (Text.slice? text edit.range.stop (byteSize text)).map fun back => front ++ (edit.text.toList ++ back)

def rightmostFirst (edits : List Edit) : List Edit :=
  edits.mergeSort fun a b => b.range.start ≤ a.range.start

def spliceFromRight? (text : List Char) (edits : List Edit) : Option (List Char) :=
  (rightmostFirst edits).foldlM Edit.spliceInto? text

theorem Text.sliceFront (front rest : List Char) : slice? (front ++ rest) 0 (byteSize front) = some front := by
  simpa using sliceAppend [] front rest

theorem Text.sliceBack (front rest : List Char) :
    slice? (front ++ rest) (byteSize front) (byteSize (front ++ rest)) = some rest := by
  simpa using sliceAppend front rest []

theorem Edit.splicedInto (front part back : List Char) (new : String) :
    spliceInto? (front ++ (part ++ back)) ⟨⟨byteSize front, byteSize front + byteSize part⟩, new⟩ =
      some (front ++ (new.toList ++ back)) := by
  have rest := Text.sliceBack (front ++ part) back
  rw [List.append_assoc, byteSizeAppend front part] at rest
  rw [spliceInto?, Text.sliceFront, rest]
  rfl

namespace EditBuffer
variable {edits order accepted : List Edit} {source : String} {buffer next : EditBuffer}

theorem Divided.spliced {pos : Nat} {text : List Char} (divided : Divided pos text edits) (front : List Char)
    (here : pos = byteSize front) :
    edits.reverse.foldlM Edit.spliceInto? (front ++ text) = some (front ++ splice pos text edits) := by
  -- the parts still to be replaced stand in front of what has been spliced in, so their offsets hold
  induction divided generalizing front with
  | done => rfl
  | @cut pos kept part rest edits new tail ih =>
    subst here
    have whole : front ++ (kept ++ (part ++ rest)) = (front ++ (kept ++ part)) ++ rest := by simp
    have later := ih (front ++ (kept ++ part)) (by simp [Nat.add_assoc])
    have first := Edit.splicedInto (front ++ kept) part
      (splice (byteSize front + byteSize kept + byteSize part) rest edits) new
    rw [byteSizeAppend] at first
    rw [List.reverse_cons, List.foldlM_append, whole, later, spliceFirst]
    simpa using first

theorem rightmostOrdered (ordered : Ordered edits) (same : order.Perm edits) :
    rightmostFirst order = edits.reverse := by
  have distinct : (edits.map fun edit => edit.range.start).Nodup :=
    List.pairwise_map.mpr (ordered.imp fun before => Nat.ne_of_lt before.1)
  have sorted := @List.pairwise_mergeSort Edit (fun a b => b.range.start ≤ a.range.start)
    (by intro a b c; simp only [decide_eq_true_eq]; omega)
    (by intro a b; simp only [Bool.or_eq_true, decide_eq_true_eq]; omega) order
  have listed : (rightmostFirst order).Perm edits := (List.mergeSort_perm order _).trans same
  refine List.Perm.eq_of_pairwise (fun a b first second early late => ?_) sorted ?_ (listed.trans edits.reverse_perm.symm)
  · have inside := listed.mem_iff.mp first
    have other := List.mem_reverse.mp second
    rw [decide_eq_true_eq] at early late
    exact List.inj_on_of_nodup_map distinct inside other (Nat.le_antisymm late early)
  · rw [List.pairwise_reverse]
    refine ordered.imp fun before => ?_
    rw [decide_eq_true_eq]
    exact Nat.le_of_lt before.1

theorem Holds.spliced (holds : Holds source accepted buffer) (same : edits.Perm accepted) :
    spliceFromRight? source.toList edits = some buffer.finish.toList := by
  rw [spliceFromRight?, rightmostOrdered holds.ordered (same.trans holds.listed.symm), holds.finished]
  exact holds.divided.spliced [] rfl

/-! ## Recording all of a list -/

def recordAll (buffer : EditBuffer) (order : List Edit) : Except EditError EditBuffer :=
  order.foldlM (fun buffer edit => buffer.update edit.range edit.text) buffer

theorem recordFirst (edit : Edit) (order : List Edit) :
    buffer.recordAll (edit :: order) =
      match buffer.update edit.range edit.text with
      | .error error => .error error
      | .ok next => next.recordAll order := by
  rw [recordAll, List.foldlM_cons]
  cases buffer.update edit.range edit.text <;> rfl

theorem Holds.recorded (holds : Holds source accepted buffer) (recorded : buffer.recordAll order = .ok next) :
    Holds source (accepted ++ order) next := by
  induction order generalizing accepted buffer with
  | nil =>
    cases recorded
    rwa [List.append_nil]
  | cons edit order ih =>
    have verdict := holds.verdict edit
    rw [recordFirst] at recorded
    split at verdict
    · rw [verdict] at recorded
      cases recorded
    · obtain ⟨first, updated, held⟩ := verdict
      rw [updated] at recorded
      rw [List.append_cons]
      exact ih held recorded

theorem Holds.recordable (holds : Holds source accepted buffer) (order : List Edit) :
    (∃ next, buffer.recordAll order = .ok next) ↔
      (∀ edit ∈ order, edit.range.Fits source.toList) ∧
        (order.Pairwise fun a b => ¬a.range.Conflicts b.range) ∧
        ∀ edit ∈ order, ∀ old ∈ accepted, ¬old.range.Conflicts edit.range := by
  induction order generalizing accepted buffer with
  | nil => exact ⟨fun _ => by simp, fun _ => ⟨buffer, rfl⟩⟩
  | cons edit order ih =>
    have verdict := holds.verdict edit
    simp only [List.forall_mem_cons, List.pairwise_cons, recordFirst]
    split at verdict
    · next judged =>
      rw [verdict]
      constructor
      · nofun
      · rintro ⟨⟨fits, -⟩, -, free, -⟩
        cases judged.symm.trans (refusalNone.mpr ⟨fits, free⟩)
    · next judged =>
      obtain ⟨first, updated, held⟩ := verdict
      obtain ⟨fits, free⟩ := refusalNone.mp judged
      rw [updated, ih held]
      constructor
      · rintro ⟨others, apart, clear⟩
        exact ⟨⟨fits, others⟩, ⟨fun late listed => clear late listed edit (by simp), apart⟩, free,
          fun late listed old before => clear late listed old (List.mem_append_left _ before)⟩
      · rintro ⟨⟨-, others⟩, ⟨own, apart⟩, -, clear⟩
        exact ⟨others, apart, fun late listed =>
          List.forall_mem_append.mpr ⟨clear late listed, by simpa using own late listed⟩⟩

theorem conflictFreePerm (same : order.Perm edits) :
    (order.Pairwise fun a b => ¬a.range.Conflicts b.range) ↔
      edits.Pairwise fun a b => ¬a.range.Conflicts b.range :=
  same.pairwise_iff fun apart conflict => apart conflict.symm

theorem recordedAnyOrder (fits : ∀ edit ∈ edits, edit.range.Fits source.toList)
    (apart : edits.Pairwise fun a b => ¬a.range.Conflicts b.range) :
    ∃ out, spliceFromRight? source.toList edits = some out ∧
      ∀ order, order.Perm edits → (recordAll ⟨source, []⟩ order).map finish = .ok (.ofList out) := by
  have taken {order : List Edit} (same : order.Perm edits) :
      ∃ next, recordAll ⟨source, []⟩ order = .ok next ∧
        spliceFromRight? source.toList edits = some next.finish.toList := by
    obtain ⟨next, recorded⟩ := ((Holds.start source).recordable order).mpr
      ⟨fun edit listed => fits edit (same.mem_iff.mp listed), (conflictFreePerm same).mpr apart, by simp⟩
    exact ⟨next, recorded, ((Holds.start source).recorded recorded).spliced same.symm⟩
  obtain ⟨next, -, spliced⟩ := taken (.refl edits)
  refine ⟨_, spliced, fun order same => ?_⟩
  obtain ⟨other, recorded, again⟩ := taken same
  rw [recorded, Option.some.inj (spliced.symm.trans again), String.ofList_toList]
  rfl

/-! ## Replacing ranges -/

theorem sliceFits {text : List Char} {range : ByteRange} :
    (Text.slice? text range.start range.stop).isSome = true ↔ range.Fits text := by
  constructor
  · intro found
    obtain ⟨part, cut⟩ := Option.isSome_iff_exists.mp found
    rw [Text.slice?] at cut
    split at cut
    · next ordered =>
      obtain ⟨p, first, cut⟩ := Option.bind_eq_some_iff.mp cut
      obtain ⟨q, second, -⟩ := Option.map_eq_some_iff.mp cut
      obtain ⟨whole, start⟩ := Text.splitAtWhole first
      obtain ⟨behind, size⟩ := Text.splitAtWhole second
      refine ⟨ordered, ⟨p.1, p.2, whole, start⟩, p.1 ++ q.1, q.2, ?_, ?_⟩
      · rw [whole, behind, List.append_assoc]
      · rw [byteSizeAppend]
        omega
    · cases cut
  · intro fits
    obtain ⟨kept, part, rest, rfl, place⟩ := @ByteRange.Fits.parts range [] text fits (Nat.zero_le _)
    rw [place, Text.byteSizeNil, Nat.zero_add, Text.sliceAppend]
    rfl

def replacement (value : String) (replacer : String → String) (range : ByteRange) : Edit :=
  ⟨range, replacer (.ofList ((Text.slice? value.toList range.start range.stop).getD []))⟩

theorem updateSource {range : ByteRange} {text : String} (updated : buffer.update range text = .ok next) :
    next.source = buffer.source := by
  unfold update at updated
  split at updated
  · cases updated
  · split at updated
    · cases updated
    · dsimp only at updated
      split at updated
      · cases updated
      · cases updated
        rfl

theorem replaceAllExact {replacer : String → String} {ranges : List ByteRange} :
    buffer.replaceAll replacer ranges = .ok next ↔
      (∀ range ∈ ranges, range.Fits buffer.source.toList) ∧
        buffer.recordAll (ranges.map (replacement buffer.source replacer)) = .ok next := by
  induction ranges generalizing buffer with
  | nil => simp [replaceAll, recordAll, pure, Except.pure]
  | cons range ranges ih =>
    rw [replaceAll, slice?, List.map_cons, recordFirst, List.forall_mem_cons]
    cases sliced : Text.slice? buffer.source.toList range.start range.stop with
    | none =>
      have misfit : ¬range.Fits buffer.source.toList := by
        rw [← sliceFits, sliced]
        simp
      simp [misfit]
    | some part =>
      have fits : range.Fits buffer.source.toList := sliceFits.mp (by rw [sliced]; rfl)
      have own : replacement buffer.source replacer range = ⟨range, replacer (.ofList part)⟩ := by
        rw [replacement, sliced]
        rfl
      rw [own, Option.map_some]
      dsimp only
      cases updated : buffer.update range (replacer (.ofList part)) with
      | error error => simp
      | ok first =>
        dsimp only
        rw [ih, updateSource updated]
        simp only [fits, true_and]

theorem Divided.unchanged {pos : Nat} {text : List Char} (divided : Divided pos text edits) (front : List Char)
    (here : pos = byteSize front)
    (own : ∀ edit ∈ edits, Text.slice? (front ++ text) edit.range.start edit.range.stop = some edit.text.toList) :
    splice pos text edits = text := by
  induction divided generalizing front with
  | done => rfl
  | @cut pos kept part rest edits new tail ih =>
    subst here
    obtain ⟨first, others⟩ := List.forall_mem_cons.mp own
    have whole : front ++ (kept ++ (part ++ rest)) = (front ++ (kept ++ part)) ++ rest := by simp
    have same : part = new.toList := by
      rw [← List.append_assoc front, ← byteSizeAppend, Text.sliceAppend] at first
      exact Option.some.inj first
    rw [spliceFirst, ← same, ih (front ++ (kept ++ part)) (by simp [Nat.add_assoc]) (whole ▸ others)]

end EditBuffer

open EditBuffer (recordAll finish replacement)

section
variable {source out : String} {ranges order : List ByteRange} {replacer : String → String}

theorem replacedRecords :
    replaceRanges source ranges replacer = .ok out ↔
      (∀ range ∈ ranges, range.Fits source.toList) ∧
        (recordAll ⟨source, []⟩ (ranges.map (replacement source replacer))).map finish = .ok out := by
  have mapped (result : Except EditError EditBuffer) :
      result.map finish = .ok out ↔ ∃ buffer, result = .ok buffer ∧ buffer.finish = out := by
    cases result <;> simp [Except.map]
  rw [replaceRanges, mapped, mapped]
  simp only [EditBuffer.replaceAllExact, and_assoc, exists_and_left]

theorem replacedHolds (replaced : replaceRanges source ranges replacer = .ok out) :
    ∃ buffer, recordAll ⟨source, []⟩ (ranges.map (replacement source replacer)) = .ok buffer ∧
      EditBuffer.Holds source (ranges.map (replacement source replacer)) buffer ∧ buffer.finish = out := by
  obtain ⟨-, recorded⟩ := replacedRecords.mp replaced
  cases all : recordAll ⟨source, []⟩ (ranges.map (replacement source replacer)) with
  | error error =>
    rw [all] at recorded
    cases recorded
  | ok buffer =>
    rw [all] at recorded
    exact ⟨buffer, rfl, (EditBuffer.Holds.start source).recorded all, Except.ok.inj recorded⟩

theorem replacedConflictFree (replaced : replaceRanges source ranges replacer = .ok out) :
    (∀ range ∈ ranges, range.Fits source.toList) ∧ ranges.Pairwise fun a b => ¬a.Conflicts b := by
  obtain ⟨buffer, recorded, -⟩ := replacedHolds replaced
  obtain ⟨fits, apart, -⟩ := ((EditBuffer.Holds.start source).recordable _).mp ⟨buffer, recorded⟩
  exact ⟨List.forall_mem_map.mp fits, List.pairwise_map.mp apart⟩

theorem conflictFreeReplaced (fits : ∀ range ∈ ranges, range.Fits source.toList)
    (apart : ranges.Pairwise fun a b => ¬a.Conflicts b) (replacer : String → String) :
    ∃ out, spliceFromRight? source.toList (ranges.map (replacement source replacer)) = some out ∧
      ∀ order, order.Perm ranges → replaceRanges source order replacer = .ok (.ofList out) := by
  obtain ⟨out, spliced, recorded⟩ :=
    @EditBuffer.recordedAnyOrder (ranges.map (replacement source replacer)) source
      (List.forall_mem_map.mpr fits) (List.pairwise_map.mpr apart)
  refine ⟨out, spliced, fun order same => replacedRecords.mpr ⟨fun range listed => ?_, recorded _ (same.map _)⟩⟩
  exact fits range (same.mem_iff.mp listed)

theorem replacedAnyOrder (same : order.Perm ranges) (replaced : replaceRanges source ranges replacer = .ok out) :
    replaceRanges source order replacer = .ok out := by
  obtain ⟨fits, apart⟩ := replacedConflictFree replaced
  obtain ⟨other, -, all⟩ := conflictFreeReplaced fits apart replacer
  rw [all order same, ← all ranges (.refl _), replaced]

theorem replacedByThemselves (replaced : replaceRanges source ranges id = .ok out) : out = source := by
  obtain ⟨fits, -⟩ := replacedConflictFree replaced
  obtain ⟨buffer, -, holds, rfl⟩ := replacedHolds replaced
  have own : ∀ edit ∈ buffer.edits,
      Text.slice? ([] ++ source.toList) edit.range.start edit.range.stop = some edit.text.toList := by
    intro edit listed
    obtain ⟨range, inside, rfl⟩ := List.mem_map.mp (holds.listed.mem_iff.mp listed)
    obtain ⟨part, sliced⟩ := Option.isSome_iff_exists.mp (EditBuffer.sliceFits.mpr (fits range inside))
    rw [List.nil_append, replacement, sliced]
    simp
  rw [← String.toList_inj, holds.finished]
  exact holds.divided.unchanged [] rfl own

end

theorem editsInAnyOrder (source : String) :
    (∀ edits : List Edit, (∀ edit ∈ edits, edit.range.Fits source.toList) →
      (edits.Pairwise fun a b => ¬a.range.Conflicts b.range) →
      ∃ out, spliceFromRight? source.toList edits = some out ∧
        ∀ order, order.Perm edits → (recordAll ⟨source, []⟩ order).map finish = .ok (.ofList out)) ∧
    ∀ (ranges : List ByteRange) (replacer : String → String),
      ((∃ out, replaceRanges source ranges replacer = .ok out) ↔
        (∀ range ∈ ranges, range.Fits source.toList) ∧ ranges.Pairwise fun a b => ¬a.Conflicts b) ∧
      (∀ out, replaceRanges source ranges replacer = .ok out →
        spliceFromRight? source.toList (ranges.map (replacement source replacer)) = some out.toList) ∧
      (∀ order, order.Perm ranges → ∀ out, replaceRanges source order replacer = .ok out ↔
        replaceRanges source ranges replacer = .ok out) ∧
      ∀ out, replaceRanges source ranges id = .ok out → out = source := by
  refine ⟨fun edits => EditBuffer.recordedAnyOrder, fun ranges replacer => ⟨⟨?_, ?_⟩, ?_, ?_, ?_⟩⟩
  · rintro ⟨out, replaced⟩
    exact replacedConflictFree replaced
  · rintro ⟨fits, apart⟩
    obtain ⟨out, -, all⟩ := conflictFreeReplaced fits apart replacer
    exact ⟨_, all ranges (.refl _)⟩
  · intro out replaced
    obtain ⟨buffer, -, holds, rfl⟩ := replacedHolds replaced
    exact holds.spliced (.refl _)
  · intro order same out
    exact ⟨replacedAnyOrder same.symm, replacedAnyOrder same⟩
  · intro out
    exact replacedByThemselves

def scatteredEdits : List Edit := [⟨⟨4, 5⟩, "C"⟩, ⟨⟨0, 1⟩, "A"⟩, ⟨⟨2, 2⟩, "+"⟩]

theorem editsInAnyOrderScattered :
    (∀ edit ∈ scatteredEdits, edit.range.Fits "a b c".toList) ∧
    (scatteredEdits.Pairwise fun a b => ¬a.range.Conflicts b.range) ∧
    (∀ order, order.Perm scatteredEdits → (recordAll ⟨"a b c", []⟩ order).map finish = .ok "A +b C") ∧
    replaceRanges "a b c" [⟨4, 5⟩, ⟨0, 1⟩, ⟨2, 2⟩] id = .ok "a b c" := by
  have fits : ∀ edit ∈ scatteredEdits, edit.range.Fits "a b c".toList := by decide
  have apart : scatteredEdits.Pairwise fun a b => ¬a.range.Conflicts b.range := by decide
  obtain ⟨anyOrder, replacing⟩ := editsInAnyOrder "a b c"
  obtain ⟨out, -, all⟩ := anyOrder scatteredEdits fits apart
  obtain ⟨⟨-, conflictFree⟩, -, -, unchanged⟩ := replacing [⟨4, 5⟩, ⟨0, 1⟩, ⟨2, 2⟩] id
  obtain ⟨same, replaced⟩ := conflictFree ⟨by decide, by decide⟩
  have shown : (recordAll ⟨"a b c", []⟩ scatteredEdits).map finish = .ok "A +b C" := by decide
  refine ⟨fits, apart, fun order listed => ?_, unchanged same replaced ▸ replaced⟩
  rw [all order listed, ← all _ (.refl _), shown]

end SheetLint
