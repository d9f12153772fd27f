import SheetLint.Magic.Rule
import SheetLint.Proofs.KeptReplacements

/-! What is assumed of the engine that finds words, colors and patterns for the matchers. The assumptions say
what is found and not how; the engine of the library keeps them, and no other one does. -/
namespace SheetLint

/-! ## Patterns -/

namespace Pattern

inductive Steps (step : Cursor → Cursor → Prop) : Nat → Cursor → Cursor → Prop
  | none (place : Cursor) : Steps step 0 place place
  | more {n : Nat} {place next last : Cursor} (first : step place next) (others : Steps step n next last) :
      Steps step (n + 1) place last

def Matches : Pattern → Cursor → Cursor → Prop
  | empty, place, last => last = place
  | one chars, place, last => ∃ c rest, place.rest = c :: rest ∧ chars.has c = true ∧ last = ⟨some c, rest⟩
  | assert assertion, place, last => assertion.holds place = true ∧ last = place
  | seq first second, place, last => ∃ middle, first.Matches place middle ∧ second.Matches middle last
  | alt left right, place, last => left.Matches place last ∨ right.Matches place last
  | repeated body least most, place, last =>
    ∃ n, least ≤ n ∧ (∀ bound, most = some bound → n ≤ max least bound) ∧ Steps body.Matches n place last

namespace Steps
variable {step : Cursor → Cursor → Prop} {m n : Nat} {place middle last : Cursor}

theorem append (front : Steps step m place middle) (behind : Steps step n middle last) :
    Steps step (m + n) place last := by
  induction front with
  | none => rwa [Nat.zero_add]
  | more first _ ih =>
    rw [Nat.add_right_comm]
    exact .more first (ih behind)

theorem split (all : Steps step (m + n) place last) :
    ∃ middle, Steps step m place middle ∧ Steps step n middle last := by
  induction m generalizing place with
  | zero => exact ⟨place, .none place, by rwa [Nat.zero_add] at all⟩
  | succ m ih =>
    rw [Nat.add_right_comm] at all
    cases all with
    | more first others =>
      obtain ⟨middle, front, behind⟩ := ih others
      exact ⟨middle, .more first front, behind⟩

theorem moves (each : ∀ place next, step place next → next = place ∨ next.rest.length < place.rest.length)
    (all : Steps step n place last) : last = place ∨ last.rest.length < place.rest.length := by
  induction all with
  | none place => exact .inl rfl
  | @more n place next last first others ih =>
    rcases each place next first with rfl | moved
    · exact ih
    · rcases ih with rfl | further
      · exact .inr moved
      · exact .inr (Nat.lt_trans further moved)

theorem shortened (each : ∀ place next, step place next → next = place ∨ next.rest.length < place.rest.length)
    (all : Steps step n place last) : ∃ m ≤ place.rest.length, Steps step m place last := by
  induction all with
  | none place => exact ⟨0, Nat.zero_le _, .none place⟩
  | @more n place next last first others ih =>
    obtain ⟨m, bound, behind⟩ := ih
    rcases each place next first with rfl | moved
    · exact ⟨m, bound, behind⟩
    · exact ⟨m + 1, Nat.lt_of_le_of_lt bound moved, .more first behind⟩

end Steps

theorem advanceExact {step : Cursor → List Cursor} {places : List Cursor} {last : Cursor} :
    last ∈ advance step places ↔ ∃ place ∈ places, last ∈ step place := by
  simp [advance]

theorem timesNext (step : Cursor → List Cursor) (n : Nat) (places : List Cursor) :
    times step (n + 1) places = times step n (advance step places) := by
  cases places with
  | nil => cases n <;> simp [times, advance]
  | cons first more => simp [times]

theorem upToNext {step : Cursor → List Cursor} {n : Nat} {places : List Cursor} {last : Cursor} :
    last ∈ upTo step (n + 1) places ↔
      last ∈ places ∨ last ∈ upTo step n ((advance step places).filter fun place => !places.contains place) := by
  cases places with
  | nil => cases n <;> simp [upTo, advance]
  | cons first more => simp [upTo, or_assoc]

theorem timesExact {step : Cursor → List Cursor} {n : Nat} {places : List Cursor} {last : Cursor} :
    last ∈ times step n places ↔ ∃ place ∈ places, Steps (fun a b => b ∈ step a) n place last := by
  induction n generalizing places with
  | zero =>
    rw [times]
    constructor
    · exact fun inside => ⟨last, inside, .none last⟩
    · rintro ⟨place, inside, stays⟩
      cases stays
      exact inside
  | succ n ih =>
    rw [timesNext, ih]
    constructor
    · rintro ⟨next, reached, others⟩
      obtain ⟨place, inside, first⟩ := advanceExact.mp reached
      exact ⟨place, inside, .more first others⟩
    · rintro ⟨place, inside, all⟩
      cases all with
      | more first others => exact ⟨_, advanceExact.mpr ⟨place, inside, first⟩, others⟩

theorem upToReached {step : Cursor → List Cursor} {n : Nat} {places : List Cursor} {last : Cursor}
    (inside : last ∈ upTo step n places) :
    ∃ m ≤ n, ∃ place ∈ places, Steps (fun a b => b ∈ step a) m place last := by
  induction n generalizing places with
  | zero => exact ⟨0, Nat.le_refl 0, last, by rwa [upTo] at inside, .none last⟩
  | succ n ih =>
    rcases upToNext.mp inside with here | later
    · exact ⟨0, Nat.zero_le _, last, here, .none last⟩
    · obtain ⟨m, bound, next, reached, others⟩ := ih later
      obtain ⟨place, own, taken⟩ := advanceExact.mp (List.mem_filter.mp reached).1
      exact ⟨m + 1, Nat.succ_le_succ bound, place, own, .more taken others⟩

theorem reachedUpTo {step : Cursor → List Cursor} {m n : Nat} {places : List Cursor} {place last : Cursor}
    (bound : m ≤ n) (inside : place ∈ places) (all : Steps (fun a b => b ∈ step a) m place last) :
    last ∈ upTo step n places := by
  -- induction on the steps: one that leads to a place from which the search goes on anyway can be left out
  induction all generalizing n places with
  | none place =>
    cases n with
    | zero => rwa [upTo]
    | succ n => exact upToNext.mpr (.inl inside)
  | @more m place next last taken others ih =>
    by_cases known : next ∈ places
    · exact ih (Nat.le_of_succ_le bound) known
    · obtain ⟨n, rfl⟩ := Nat.exists_eq_add_of_lt bound
      have reached := advanceExact.mpr ⟨place, inside, taken⟩
      exact upToNext.mpr (.inr (ih (Nat.le_add_right m n) (List.mem_filter.mpr ⟨reached, by simpa using known⟩)))

theorem upToTimes {step : Cursor → List Cursor} {least more : Nat} {place last : Cursor} :
    last ∈ upTo step more (times step least [place]) ↔
      ∃ m ≤ more, Steps (fun a b => b ∈ step a) (least + m) place last := by
  constructor
  · intro inside
    obtain ⟨m, bound, middle, begun, others⟩ := upToReached inside
    obtain ⟨_, only, first⟩ := timesExact.mp begun
    obtain rfl := List.mem_singleton.mp only
    exact ⟨m, bound, first.append others⟩
  · rintro ⟨m, bound, all⟩
    obtain ⟨middle, first, others⟩ := all.split
    exact reachedUpTo bound (timesExact.mpr ⟨place, List.mem_singleton_self place, first⟩) others

theorem matchesMove {pattern : Pattern} {place last : Cursor} (found : pattern.Matches place last) :
    last = place ∨ last.rest.length < place.rest.length := by
  induction pattern generalizing place last with
  | empty => exact .inl found
  | one chars =>
    obtain ⟨c, rest, whole, -, rfl⟩ := found
    exact .inr (by simp [whole])
  | assert assertion => exact .inl found.2
  | seq first second ihFirst ihSecond =>
    obtain ⟨middle, front, behind⟩ := found
    rcases ihFirst front with rfl | moved
    · exact ihSecond behind
    · rcases ihSecond behind with rfl | further
      · exact .inr moved
      · exact .inr (Nat.lt_trans further moved)
  | alt left right ihLeft ihRight => exact found.elim ihLeft ihRight
  | repeated body least most ih =>
    obtain ⟨n, -, -, all⟩ := found
    exact all.moves fun _ _ => ih

theorem endsExact {pattern : Pattern} {place last : Cursor} :
    last ∈ pattern.ends place ↔ pattern.Matches place last := by
  induction pattern generalizing place last with
  | empty => simp [ends, Matches]
  | one chars =>
    obtain ⟨before, rest⟩ := place
    cases rest with
    | nil => simp [ends, Matches]
    | cons c rest =>
      rw [ends, Matches]
      split
      · next has => simp [has]
      · next other => simp [other]
  | assert assertion => simp [ends, Matches]
  | seq first second ihFirst ihSecond => simp only [ends, Matches, advanceExact, ihFirst, ihSecond]
  | alt left right ihLeft ihRight => simp [ends, Matches, ihLeft, ihRight]
  | repeated body least most ih =>
    have same : (fun a b => b ∈ body.ends a) = body.Matches := funext fun _ => funext fun _ => propext ih
    simp only [ends, Matches, upToTimes, same]
    constructor
    · rintro ⟨m, bound, all⟩
      refine ⟨least + m, Nat.le_add_right _ _, ?_, all⟩
      rintro limit rfl
      dsimp only at bound
      omega
    · rintro ⟨n, enough, limited, all⟩
      obtain ⟨m, rfl⟩ := Nat.exists_eq_add_of_le enough
      cases most with
      | some limit =>
        have bound := limited limit rfl
        exact ⟨m, by dsimp only; omega, all⟩
      | none =>
        obtain ⟨middle, first, others⟩ := all.split
        obtain ⟨k, bound, direct⟩ := others.shortened fun _ _ => matchesMove
        have shorter : middle.rest.length ≤ place.rest.length := by
          rcases first.moves fun _ _ => matchesMove with rfl | moved
          · exact Nat.le_refl _
          · exact Nat.le_of_lt moved
        exact ⟨k, Nat.le_trans bound shorter, first.append direct⟩

theorem isMatchExact {pattern : Pattern} {text : String} :
    pattern.isMatch text = true ↔
      ∃ front rest last, text.toList = front ++ rest ∧ pattern.Matches ⟨front.getLast?, rest⟩ last := by
  have searched := @Text.searched (fun before rest => !(pattern.ends ⟨before, rest⟩).isEmpty)
    pattern.matchesFrom (fun _ => rfl) (fun _ _ _ => rfl) [] text.toList
  rw [isMatch, ← List.getLast?_nil, searched]
  constructor
  · rintro ⟨front, rest, whole, here⟩
    obtain ⟨last, inside⟩ := List.exists_mem_of_ne_nil _ (by simpa using here)
    exact ⟨front, rest, last, whole, endsExact.mp inside⟩
  · rintro ⟨front, rest, last, whole, found⟩
    refine ⟨front, rest, whole, ?_⟩
    simpa using List.ne_nil_of_mem (endsExact.mpr found)

end Pattern

theorem ColorHint.occursExact {text : List Char} :
    occurs text = true ↔ ∃ front rest, text = front ++ rest ∧ colorAt rest = true :=
  @Text.searched (fun _ => colorAt) (fun _ => occurs) (fun _ => rfl) (fun _ _ _ => rfl) [] text

theorem Word.occursExact {word text : String} :
    occurs word text = true ↔ ∃ front part rest, text.toList = front ++ (part ++ rest) ∧
      Occurrence word.toList front part rest :=
  @occursFromSpelled word.toList [] text.toList

/-! ## The contract -/

namespace Engine
variable {engine : Engine}

/- Words and patterns are found wherever they stand, and words are replaced from left to right. Colors and
patterns are read by the grammars of the library, which leave out colors relative to another by `hsl` and most
properties of characters. Every word has an expression, so keys are taken to be no longer than one can hold. -/
structure Contract (engine : Engine) : Prop where
  wordBuilt (key : String) : engine.buildsWord key = true
  wordFound (key text : String) : engine.findsWord key text = true ↔
    ∃ front part rest, text.toList = front ++ (part ++ rest) ∧ Word.Occurrence key.toList front part rest
  wordReplaced (key replacement text : String) :
    engine.replaceWord key replacement text = Word.replaceAll key replacement text
  colorHinted (text : List Char) : engine.hintsColor text = true ↔
    ∃ front rest, text = front ++ rest ∧ ColorHint.colorAt rest = true
  colorRead (text : String) : engine.color? text = Rgba.parse? text
  patternRead (text : String) : engine.pattern? text = Pattern.read? text
  patternFound (pattern : Pattern) (text : String) : engine.matchesPattern pattern text = true ↔
    ∃ front rest last, text.toList = front ++ rest ∧ pattern.Matches ⟨front.getLast?, rest⟩ last

theorem ownContract : own.Contract where
  wordBuilt _ := rfl
  wordFound _ _ := Word.occursExact
  wordReplaced _ _ _ := rfl
  colorHinted _ := ColorHint.occursExact
  colorRead _ := rfl
  patternRead _ := rfl
  patternFound _ _ := Pattern.isMatchExact

theorem Contract.unique (contract : engine.Contract) : engine = own := by
  obtain ⟨buildsWord, findsWord, replaceWord, hintsColor, color?, pattern?, matchesPattern⟩ := engine
  obtain ⟨built, found, replaced, hinted, colors, patterns, matched⟩ := contract
  simp only [own, mk.injEq]
  refine ⟨funext built, ?_, ?_, ?_, funext colors, funext patterns, ?_⟩
  · exact funext fun key => funext fun text => Bool.eq_iff_iff.mpr ((found key text).trans Word.occursExact.symm)
  · exact funext fun key => funext fun replacement => funext (replaced key replacement)
  · exact funext fun text => Bool.eq_iff_iff.mpr ((hinted text).trans ColorHint.occursExact.symm)
  · exact funext fun pattern => funext fun text =>
      Bool.eq_iff_iff.mpr ((matched pattern text).trans Pattern.isMatchExact.symm)

theorem Contract.sameRule (contract : engine.Contract) (primary : Json) (secondary : Option Json)
    (default : Severity) (rule : MagicRule) (mode : Mode) (sheet : Sheet) :
    MagicRule.ofOptions primary secondary default engine = MagicRule.ofOptions primary secondary default ∧
      rule.run mode sheet engine = rule.run mode sheet := by
  rw [contract.unique]
  exact ⟨rfl, rfl⟩

end Engine
end SheetLint
