import Mathlib.Data.List.TakeWhile
import SheetLint.Proofs.ValueLayout

/-! What reading a value makes of its text. The nodes are laid out over the whole text, except that an
address call ends at the first closing parenthesis, and a string or comment that was opened inside of it is
left out as a whole: what of it goes on behind the call is lost. -/
namespace SheetLint
open Text (byteSize byteSizeNil byteSizeCons byteSizeAppend)

/-! ## Lexemes in a row -/

namespace Lexeme

def Shaped (lexeme : Lexeme) : Prop :=
  match lexeme.kind with
  | .opening => lexeme.text = ['(']
  | .closing => lexeme.text = [')']
  | .string closed => ∃ quote inner, lexeme.text = quote :: (inner ++ if closed then [quote] else [])
  | .comment closed => ∃ inner, lexeme.text = '/' :: '*' :: (inner ++ if closed then ['*', '/'] else [])
  | _ => lexeme.text ≠ [] ∧ ')' ∉ lexeme.text

def Chained : Nat → List Lexeme → Prop
  | _, [] => True
  | pos, lexeme :: rest => lexeme.start = pos ∧ lexeme.Shaped ∧ Chained lexeme.stop rest

theorem Shaped.visible {lexeme : Lexeme} (shaped : lexeme.Shaped) : lexeme.text ≠ [] := by
  unfold Shaped at shaped
  split at shaped
  · simp [shaped]
  · simp [shaped]
  · obtain ⟨quote, inner, text⟩ := shaped
    simp [text]
  · obtain ⟨inner, text⟩ := shaped
    simp [text]
  · exact shaped.1

theorem closeStringEnd {quote : Char} {cs : List Char} {p : List Char × List Char}
    (h : closeString quote cs = some p) : ∃ inner, p.1 = inner ++ [quote] := by
  fun_induction closeString quote cs generalizing p with
  | case1 => simp at h
  | case2 => simp at h
  | case3 c cs _ ih =>
    obtain ⟨q, hq, rfl⟩ := Option.map_eq_some_iff.1 h
    obtain ⟨inner, ends⟩ := ih hq
    exact ⟨'\\' :: c :: inner, by simp [ends]⟩
  | case4 c cs _ found =>
    cases h
    exact ⟨[], by simpa using found⟩
  | case5 c cs _ _ ih =>
    obtain ⟨q, hq, rfl⟩ := Option.map_eq_some_iff.1 h
    obtain ⟨inner, ends⟩ := ih hq
    exact ⟨c :: inner, by simp [ends]⟩

theorem runWithoutClosing {p : Char → Bool} (other : p ')' = false) {c : Char} (first : p c = true)
    (cs : List Char) : ')' ∉ c :: cs.takeWhile p := by
  intro inside
  rcases List.mem_cons.mp inside with rfl | later
  · simp [first] at other
  · simp [List.mem_takeWhile_imp later] at other

theorem firstShaped (offset : Nat) (c : Char) (cs : List Char) : (first offset c cs).1.Shaped := by
  unfold first
  split
  · next comment =>
    obtain ⟨slash, star⟩ := Bool.and_eq_true_iff.mp comment
    obtain ⟨inner, rfl⟩ := List.head?_eq_some_iff.mp (beq_iff_eq.mp star)
    exact ⟨inner, by simp [beq_iff_eq.mp slash]⟩
  split
  · next blank => exact ⟨by simp, runWithoutClosing rfl blank cs⟩
  split
  · next divider => exact ⟨by simp, runWithoutClosing (p := isDividerChar) rfl divider []⟩
  split
  · next opening => exact congrArg (· :: []) (beq_iff_eq.mp opening)
  split
  · next closing => exact congrArg (· :: []) (beq_iff_eq.mp closing)
  split
  · split
    · next inner rest closed =>
      obtain ⟨front, ends⟩ := closeStringEnd closed
      exact ⟨c, front, congrArg (c :: ·) ends⟩
    · exact ⟨c, cs, by simp⟩
  · have word : isWordChar c = true := by simp_all [isWordChar]
    exact ⟨by simp, runWithoutClosing rfl word cs⟩

theorem firstStart (offset : Nat) (c : Char) (cs : List Char) : (first offset c cs).1.start = offset := by
  unfold first
  repeat' split
  all_goals rfl

theorem lexChained (offset : Nat) (cs : List Char) : Chained offset (lex offset cs) := by
  fun_induction lex offset cs with
  | case1 => trivial
  | case2 offset c rest ih => exact ⟨firstStart offset c rest, firstShaped offset c rest, ih⟩

end Lexeme

/-! ## Text behind address calls -/

def addressNode (name opening : Lexeme) (after : List Lexeme) : ValueNode :=
  addressCall (.ofList name.text) name.start opening.stop (after.flatMap Lexeme.text)

def addressEnd? (lexeme : Lexeme) : List Lexeme → Option Nat
  | [] => none
  | opening :: after =>
    if lexeme.kind = .word && opening.kind = .opening &&
        Text.sameIgnoringCase lexeme.text "url".toList && !Lexeme.stringFollows after then
      some (addressNode lexeme opening after).range.stop
    else none

/- The ranges of text that reading leaves out: of each lexeme that begins before byte `skip`, the end of an
address call, what goes on behind it. -/
def overruns (skip : Nat) : List Lexeme → List ByteRange
  | [] => []
  | lexeme :: rest =>
    if lexeme.start < skip then
      (if skip < lexeme.stop then [⟨skip, lexeme.stop⟩] else []) ++ overruns skip rest
    else overruns ((addressEnd? lexeme rest).getD skip) rest

inductive ReadAs (lexeme : Lexeme) : List Lexeme → Prop where
  | address {opening after} (opens : opening.kind = .opening)
      (ends : addressEnd? lexeme (opening :: after) = some (addressNode lexeme opening after).range.stop)
      (items : ∀ skip ≤ lexeme.start, valueItems skip (lexeme :: opening :: after) =
        .node (addressNode lexeme opening after) ::
          valueItems (addressNode lexeme opening after).range.stop (opening :: after)) :
      ReadAs lexeme (opening :: after)
  | call {opening after} (opens : opening.kind = .opening)
      (ends : addressEnd? lexeme (opening :: after) = none)
      (items : ∀ skip ≤ lexeme.start, valueItems skip (lexeme :: opening :: after) =
        .opening (.ofList lexeme.text) lexeme.start :: valueItems opening.stop (opening :: after)) :
      ReadAs lexeme (opening :: after)
  | item {rest} (ends : addressEnd? lexeme rest = none)
      (items : ∀ skip ≤ lexeme.start,
        valueItems skip (lexeme :: rest) = lexeme.toItem :: valueItems skip rest) :
      ReadAs lexeme rest

theorem readAs (lexeme : Lexeme) (rest : List Lexeme) : ReadAs lexeme rest := by
  have begun {skip : Nat} (past : skip ≤ lexeme.start) : ¬ lexeme.start < skip := Nat.not_lt.mpr past
  cases rest with
  | nil =>
    refine .item rfl fun skip past => ?_
    rw [valueItems.eq_def]
    simp [begun past]
  | cons opening after =>
    obtain ⟨kind, paren, start⟩ := opening
    by_cases word : lexeme.kind = .word
    · by_cases opens : kind = .opening
      · subst opens
        by_cases url : (Text.sameIgnoringCase lexeme.text "url".toList && !Lexeme.stringFollows after) = true
        · refine .address rfl ?_ fun skip past => ?_
          · simp only [addressEnd?, word, decide_true, Bool.true_and, url, if_true]
          · simp only [valueItems, if_neg (begun past), word, url, if_true]
            rfl
        · refine .call rfl ?_ fun skip past => ?_
          · simp only [addressEnd?, word, decide_true, Bool.true_and, url, Bool.false_eq_true, if_false]
          · simp only [valueItems, if_neg (begun past), word, url]
            rfl
      · refine .item ?_ fun skip past => ?_
        · simp only [addressEnd?, opens, decide_false, Bool.and_false, Bool.false_and, Bool.false_eq_true, if_false]
        · rw [valueItems.eq_def]
          simp only [if_neg (begun past)]
          split
          · next same => cases same; exact absurd rfl opens
          · rfl
    · refine .item ?_ fun skip past => ?_
      · simp only [addressEnd?, word, decide_false, Bool.false_and, Bool.false_eq_true, if_false]
      · rw [valueItems.eq_def]
        simp only [if_neg (begun past)]
        split
        · next same _ => exact absurd same word
        · rfl

def keptFrom (skip : Nat) (lexemes : List Lexeme) : List Lexeme :=
  lexemes.dropWhile fun lexeme => lexeme.start < skip

section Skipping
variable {pos skip : Nat} {lexemes : List Lexeme}

theorem pastKept (chained : Lexeme.Chained pos lexemes) (past : skip ≤ pos) :
    keptFrom skip lexemes = lexemes := by
  cases lexemes with
  | nil => rfl
  | cons lexeme rest =>
    have here := chained.1
    exact List.dropWhile_cons_of_neg (by simp; omega)

theorem pastItems (chained : Lexeme.Chained pos lexemes) (past : skip ≤ pos) :
    valueItems skip lexemes = valueItems 0 lexemes ∧ overruns skip lexemes = overruns 0 lexemes := by
  induction lexemes generalizing pos with
  | nil => exact ⟨rfl, rfl⟩
  | cons lexeme rest ih =>
    obtain ⟨here, -, tail⟩ := chained
    have later : skip ≤ lexeme.stop := by
      unfold Lexeme.stop
      omega
    have begun : skip ≤ lexeme.start := by omega
    obtain ⟨same, ranges⟩ := ih tail later
    simp only [overruns, Nat.not_lt.mpr begun, Nat.not_lt_zero, if_false]
    cases readAs lexeme rest with
    | address _ ends items => exact ⟨by simp only [items skip begun, items 0 (Nat.zero_le _)], by simp [ends]⟩
    | call _ ends items =>
      exact ⟨by simp only [items skip begun, items 0 (Nat.zero_le _)], by simpa [ends] using ranges⟩
    | item ends items =>
      exact ⟨by rw [items skip begun, items 0 (Nat.zero_le _), same], by simpa [ends] using ranges⟩

theorem skippedItems (chained : Lexeme.Chained pos lexemes) :
    valueItems skip lexemes = valueItems 0 (keptFrom skip lexemes) := by
  induction lexemes generalizing pos with
  | nil => rfl
  | cons lexeme rest ih =>
    by_cases begun : lexeme.start < skip
    · have dropped : keptFrom skip (lexeme :: rest) = keptFrom skip rest :=
        List.dropWhile_cons_of_pos (by simpa using begun)
      rw [valueItems.eq_def, dropped, ← ih chained.2.2]
      exact if_pos begun
    · have past : skip ≤ pos := by have := chained.1; omega
      rw [pastKept chained past, (pastItems chained past).1]

/- Where `passed` is the text up to byte `skip`: behind it stands what is left of a lexeme, if one goes on
there, and then the lexemes that are kept. -/
theorem skippedText {passed behind : List Char} (chained : Lexeme.Chained pos lexemes)
    (whole : lexemes.flatMap Lexeme.text = passed ++ behind) (reach : skip = pos + byteSize passed) :
    ∃ gap, behind = gap ++ (keptFrom skip lexemes).flatMap Lexeme.text ∧
      Lexeme.Chained (skip + byteSize gap) (keptFrom skip lexemes) ∧
      overruns skip lexemes = gapAt skip gap ++ overruns 0 (keptFrom skip lexemes) := by
  induction lexemes generalizing pos passed with
  | nil =>
    obtain ⟨rfl, rfl⟩ := List.append_eq_nil_iff.mp whole.symm
    exact ⟨[], rfl, trivial, rfl⟩
  | cons lexeme rest ih =>
    have here := chained.1
    have tail := chained.2.2
    by_cases begun : lexeme.start < skip
    · have dropped : keptFrom skip (lexeme :: rest) = keptFrom skip rest :=
        List.dropWhile_cons_of_pos (by simpa using begun)
      rw [dropped, overruns, if_pos begun]
      rw [List.flatMap_cons] at whole
      rcases List.append_eq_append_iff.mp whole with ⟨more, rfl, whole'⟩ | ⟨gap, own, rfl⟩
      · have stop : ¬ skip < lexeme.stop := by
          simp only [Lexeme.stop, reach, byteSizeAppend]
          omega
        obtain ⟨gap, split, kept, ranges⟩ := ih tail whole' (by simp [Lexeme.stop, reach, here]; omega)
        exact ⟨gap, split, kept, by rw [if_neg stop, List.nil_append, ranges]⟩
      · have stop : lexeme.stop = skip + byteSize gap := by
          simp only [Lexeme.stop, own, reach, here, byteSizeAppend]
          omega
        have past : skip ≤ lexeme.stop := by omega
        rw [pastKept tail past, (pastItems tail past).2]
        refine ⟨gap, rfl, stop ▸ tail, ?_⟩
        unfold gapAt
        by_cases none : gap = []
        · simp [none, stop]
        · have := Text.byteSizePos none
          rw [if_pos (by omega), if_neg none, stop]
    · have past : skip ≤ pos := by omega
      have none : passed = [] := by
        apply Decidable.byContradiction
        intro some
        have := Text.byteSizePos some
        omega
      subst none
      rw [pastKept chained past, (pastItems chained past).2]
      refine ⟨[], by simpa using whole.symm, ?_, rfl⟩
      simpa [reach] using chained

end Skipping

/-! ## From lexemes to items -/

inductive Itemized : Nat → List Char → List ValueItem → List ByteRange → Prop where
  | nil {pos} : Itemized pos [] [] []
  | node {pos written node lost rest items more} (bare : ValueNode.Bare node)
      (laid : Laid pos written [node] lost) (tail : Itemized (pos + byteSize written) rest items more) :
      Itemized pos (written ++ rest) (.node node :: items) (lost ++ more)
  | opening {pos name rest items lost} (tail : Itemized (pos + byteSize name.toList + 1) rest items lost) :
      Itemized pos (name.toList ++ '(' :: rest) (.opening name pos :: items) lost
  | closing {pos rest items lost} (tail : Itemized (pos + 1) rest items lost) :
      Itemized pos (')' :: rest) (.closing ⟨pos, pos + 1⟩ :: items) lost

theorem leafAlone {pos : Nat} {kind : LeafKind} {own : String} {written : List Char}
    (shown : (kind.written own).toList = written) (visible : written ≠ []) :
    Laid pos written [.leaf kind own ⟨pos, pos + byteSize written⟩] [] := by
  simpa using Laid.leaf shown visible .nil

theorem Itemized.leaf {pos : Nat} {kind : LeafKind} {own : String} {written rest : List Char}
    {items : List ValueItem} {lost : List ByteRange} (tail : Itemized (pos + byteSize written) rest items lost)
    (visible : written ≠ []) (shown : (kind.written own).toList = written)
    (bare : ValueNode.Bare (.leaf kind own ⟨pos, pos + byteSize written⟩)) :
    Itemized pos (written ++ rest) (.node (.leaf kind own ⟨pos, pos + byteSize written⟩) :: items) lost :=
  .node bare (leafAlone shown visible) tail

theorem Itemized.lexeme {lexeme : Lexeme} {rest : List Char} {items : List ValueItem}
    {lost : List ByteRange} (shaped : lexeme.Shaped) (tail : Itemized lexeme.stop rest items lost) :
    Itemized lexeme.start (lexeme.text ++ rest) (lexeme.toItem :: items) lost := by
  obtain ⟨kind, text, start⟩ := lexeme
  have visible : text ≠ [] := shaped.visible
  cases kind with
  | space => exact .leaf tail visible (by simp [LeafKind.written]) trivial
  | divider => exact .leaf tail visible (by simp [LeafKind.written]) ⟨rfl, rfl⟩
  | word => exact .leaf tail visible (by simp [LeafKind.written]) trivial
  | opening =>
    obtain rfl : text = ['('] := shaped
    exact @Itemized.opening start "" rest items lost tail
  | closing =>
    obtain rfl : text = [')'] := shaped
    exact .closing tail
  | comment closed =>
    obtain ⟨inner, rfl⟩ : ∃ inner, text = '/' :: '*' :: (inner ++ if closed then ['*', '/'] else []) :=
      shaped
    refine .leaf tail visible ?_ trivial
    cases closed <;> simp [LeafKind.written, Lexeme.uncomment]
  | string closed =>
    obtain ⟨quote, inner, rfl⟩ : ∃ quote inner, text = quote :: (inner ++ if closed then [quote] else []) :=
      shaped
    refine .leaf tail visible ?_ trivial
    cases closed <;> simp [LeafKind.written, Lexeme.unquote]

theorem closingSplit (text : List Char) :
    ∃ behind, text = text.takeWhile (· != ')') ++
      (closingText ((text.takeWhile (· != ')')).length < text.length) ++ behind) ∧
      ((text.takeWhile (· != ')')).length < text.length ∨ behind = []) := by
  induction text with
  | nil => exact ⟨[], rfl, .inr rfl⟩
  | cons c cs ih =>
    by_cases closing : c = ')'
    · exact ⟨cs, by simp [closing, closingText], .inl (by simp [closing])⟩
    · obtain ⟨behind, split, ends⟩ := ih
      refine ⟨behind, ?_⟩
      rw [List.takeWhile_cons_of_pos (by simpa using closing), List.cons_append, List.length_cons,
        List.length_cons]
      exact ⟨by simpa using split, by simpa using ends⟩

theorem closingTextSize (closed : Bool) : byteSize (closingText closed) = if closed then 1 else 0 := by
  cases closed <;> rfl

theorem addressLaid (name : String) (start : Nat) (text : List Char) :
    let call := addressCall name start (start + byteSize name.toList + 1) text
    ∃ inner behind, text = inner ++ behind ∧ (behind = [] ∨ ∃ front, inner = front ++ [')']) ∧
      call.range.stop = start + byteSize (name.toList ++ '(' :: inner) ∧
      ∀ gap, Laid start (name.toList ++ '(' :: inner ++ gap) [call] (gapAt call.range.stop gap) := by
  obtain ⟨behind, split, closes⟩ := closingSplit text
  intro call
  have stop : call.range.stop = start + byteSize (name.toList ++ '(' :: (text.takeWhile (· != ')') ++
      closingText ((text.takeWhile (· != ')')).length < text.length))) := by
    simp only [call, addressCall, ValueNode.range, byteSizeAppend, byteSizeCons, parenthesisSize, closingTextSize,
      decide_eq_true_eq]
    omega
  have ends : behind = [] ∨ ∃ front, text.takeWhile (· != ')') ++
      closingText ((text.takeWhile (· != ')')).length < text.length) = front ++ [')'] :=
    closes.symm.imp_right fun closed => ⟨_, by rw [closingText, if_pos (by simpa using closed)]⟩
  refine ⟨_, behind, by rwa [List.append_assoc], ends, stop, fun gap => ?_⟩
  clear split closes ends
  simp only [call, addressCall, ValueNode.range] at stop ⊢
  generalize text.takeWhile (· != ')') = content at stop ⊢
  have inside : Laid (start + byteSize name.toList + 1 +
      byteSize (String.ofList (Text.leading content)).toList) (Text.trimEnd (Text.trimStart content))
      (if (Text.trimEnd (Text.trimStart content)).isEmpty then []
        else [.leaf .word (.ofList (Text.trimEnd (Text.trimStart content)))
          ⟨start + byteSize name.toList + 1 + byteSize (Text.leading content),
            start + byteSize name.toList + 1 + byteSize (Text.leading content) +
              byteSize (Text.trimEnd (Text.trimStart content))⟩]) [] := by
    rw [String.toList_ofList]
    split
    · next none =>
      rw [List.isEmpty_iff.mp none]
      exact .nil
    · next some => exact leafAlone (by simp [LeafKind.written]) (by simpa using some)
  have blanks : Text.leading content ++ (Text.trimEnd (Text.trimStart content) ++
      (Text.trailing (Text.trimStart content) ++ closingText (content.length < text.length))) =
        content ++ closingText (content.length < text.length) := by
    rw [← List.append_assoc (Text.trimEnd _), Text.trimEndTrailing, ← List.append_assoc,
      Text.leadingTrimStart]
  exact inside.callAlone (by simp only [callText, String.toList_ofList, blanks]) stop gap

section Openings
variable {pos : Nat} {opening : Lexeme} {after : List Lexeme}

theorem openingEnd (opens : opening.kind = .opening) (after : List Lexeme) :
    addressEnd? opening after = none := by
  cases after with
  | nil => rfl
  | cons next rest => simp [addressEnd?, opens]

theorem openingAt (opens : opening.kind = .opening) (chained : Lexeme.Chained pos (opening :: after)) :
    opening.text = ['('] ∧ opening.stop = pos + 1 ∧ Lexeme.Chained (pos + 1) after := by
  obtain ⟨rfl, shaped, behind⟩ := chained
  have text : opening.text = ['('] := by simpa only [Lexeme.Shaped, opens] using shaped
  have stop : opening.stop = opening.start + 1 := by simp [Lexeme.stop, text]
  exact ⟨text, stop, stop ▸ behind⟩

theorem openingSkipped (opens : opening.kind = .opening)
    (chained : Lexeme.Chained pos (opening :: after)) :
    valueItems opening.stop (opening :: after) = valueItems 0 after := by
  obtain ⟨-, stop, behind⟩ := openingAt opens chained
  have begun : opening.start < opening.stop := by
    rw [stop, chained.1]
    exact Nat.lt_succ_self pos
  rw [skippedItems chained, keptFrom, List.dropWhile_cons_of_pos (by simpa using begun)]
  exact congrArg (valueItems 0) (pastKept behind (Nat.le_of_eq stop))

theorem addressReach {lexeme : Lexeme} (opens : opening.kind = .opening)
    (chained : Lexeme.Chained lexeme.stop (opening :: after)) :
    ∃ passed behind, (opening :: after).flatMap Lexeme.text = passed ++ behind ∧
      (behind = [] ∨ ∃ front, passed = front ++ [')']) ∧
      (addressNode lexeme opening after).range.stop = lexeme.stop + byteSize passed ∧
      ∀ gap, Laid lexeme.start (lexeme.text ++ passed ++ gap) [addressNode lexeme opening after]
        (gapAt (addressNode lexeme opening after).range.stop gap) := by
  have name : (String.ofList lexeme.text).toList = lexeme.text := String.toList_ofList
  obtain ⟨text, stop, -⟩ := openingAt opens chained
  obtain ⟨inner, behind, whole, ends, reach, laid⟩ :=
    addressLaid (.ofList lexeme.text) lexeme.start (after.flatMap Lexeme.text)
  have node : addressNode lexeme opening after = addressCall (.ofList lexeme.text) lexeme.start
      (lexeme.start + byteSize (String.ofList lexeme.text).toList + 1) (after.flatMap Lexeme.text) := by
    rw [addressNode, stop, Lexeme.stop, name]
  rw [← node, name] at reach laid
  refine ⟨'(' :: inner, behind, by simp [text, whole], ends.imp_right ?_, ?_, laid⟩
  · rintro ⟨front, rfl⟩
    exact ⟨'(' :: front, rfl⟩
  · rw [reach, byteSizeAppend, Lexeme.stop, Nat.add_assoc]

end Openings

theorem valueItemized {pos : Nat} {lexemes : List Lexeme} (chained : Lexeme.Chained pos lexemes) :
    Itemized pos (lexemes.flatMap Lexeme.text) (valueItems 0 lexemes) (overruns 0 lexemes) := by
  -- induction on the number of lexemes, since an address call takes many of them at once
  induction length : lexemes.length using Nat.strongRecOn generalizing pos lexemes with
  | ind length ih =>
    cases lexemes with
    | nil => exact .nil
    | cons lexeme rest =>
      obtain ⟨rfl, shaped, tail⟩ := chained
      have name : (String.ofList lexeme.text).toList = lexeme.text := String.toList_ofList
      rw [List.length_cons] at length
      rw [List.flatMap_cons, overruns, if_neg (Nat.not_lt_zero _)]
      cases readAs lexeme rest with
      | item ends items =>
        rw [items 0 (Nat.zero_le _), ends]
        exact .lexeme shaped (ih _ (by omega) tail rfl)
      | @call opening after opens ends items =>
        obtain ⟨text, -, behind⟩ := openingAt opens tail
        rw [List.length_cons] at length
        have past := ih _ (by omega) behind rfl
        rw [items 0 (Nat.zero_le _), openingSkipped opens tail, ends, List.flatMap_cons, text,
          Option.getD_none, overruns, if_neg (Nat.not_lt_zero _), openingEnd opens]
        rw [Lexeme.stop, ← name] at past
        have opened := Itemized.opening past
        rwa [name] at opened
      | @address opening after opens ends items =>
        obtain ⟨passed, behind, whole, -, reach, laid⟩ := addressReach opens tail
        obtain ⟨gap, split, kept, ranges⟩ := skippedText tail whole reach
        have fewer := List.length_dropWhile_le (fun lexeme' : Lexeme =>
          lexeme'.start < (addressNode lexeme opening after).range.stop) (opening :: after)
        have past := ih _ (by unfold keptFrom; omega) kept rfl
        rw [items 0 (Nat.zero_le _), ends, skippedItems tail, Option.getD_some, whole, split, ranges,
          ← List.append_assoc, ← List.append_assoc]
        refine .node trivial (laid gap) ?_
        rwa [byteSizeAppend, byteSizeAppend, ← Nat.add_assoc, ← Nat.add_assoc, ← Lexeme.stop, ← reach]

/-! ## What is left out -/

def Lexeme.Overrun (lexeme : Lexeme) (range : ByteRange) : Prop :=
  (∃ closed, lexeme.kind = .comment closed ∨ lexeme.kind = .string closed) ∧
    ∃ front behind, lexeme.text = front ++ ')' :: behind ∧ behind ≠ [] ∧
      range = ⟨lexeme.start + byteSize front + 1, lexeme.stop⟩

theorem Lexeme.Shaped.quoting {lexeme : Lexeme} {front behind : List Char} (shaped : lexeme.Shaped)
    (text : lexeme.text = front ++ ')' :: behind) (more : behind ≠ []) :
    ∃ closed, lexeme.kind = .comment closed ∨ lexeme.kind = .string closed := by
  unfold Shaped at shaped
  split at shaped
  · rw [shaped] at text
    cases front <;> simp at text
  · rw [shaped] at text
    cases front <;> simp_all
  · next closed kind => exact ⟨closed, .inr kind⟩
  · next closed kind => exact ⟨closed, .inl kind⟩
  · exact absurd (by simp [text]) shaped.2

/- Byte `skip` is behind a closing parenthesis of the text at byte `pos`, or at its end, or not in it. -/
def Landed (pos skip : Nat) (text : List Char) : Prop :=
  skip ≤ pos ∨ ∃ passed behind, text = passed ++ behind ∧ skip = pos + byteSize passed ∧
    (behind = [] ∨ ∃ front, passed = front ++ [')'])

theorem Landed.past {pos skip : Nat} {text rest : List Char} (landed : Landed pos skip (text ++ rest)) :
    Landed (pos + byteSize text) skip rest := by
  obtain past | ⟨passed, behind, whole, rfl, ends⟩ := landed
  · exact .inl (Nat.le_add_right_of_le past)
  rcases List.append_eq_append_iff.mp whole with ⟨more, rfl, whole'⟩ | ⟨gap, rfl, rfl⟩
  · by_cases none : more = []
    · exact .inl (by simp [none])
    · refine .inr ⟨more, behind, whole', by simp [Nat.add_assoc], ends.imp_right ?_⟩
      rintro ⟨front, same⟩
      have last : (text ++ more).getLast? = some ')' := by simp [same]
      rw [List.getLast?_append, Option.or_of_isSome (by simpa using none)] at last
      exact List.getLast?_eq_some_iff.mp last
  · exact .inl (by simp)

theorem overrunFirst {skip : Nat} {lexeme : Lexeme} {rest : List Char} (shaped : lexeme.Shaped)
    (landed : Landed lexeme.start skip (lexeme.text ++ rest)) (begun : lexeme.start < skip)
    (beyond : skip < lexeme.stop) : lexeme.Overrun ⟨skip, lexeme.stop⟩ := by
  obtain past | ⟨passed, behind, whole, rfl, ends⟩ := landed
  · omega
  unfold Lexeme.stop at beyond
  rcases List.append_eq_append_iff.mp whole with ⟨more, rfl, -⟩ | ⟨gap, own, rfl⟩
  · simp only [byteSizeAppend] at beyond
    omega
  · have some : gap ≠ [] := by
      rintro rfl
      simp [own] at beyond
    obtain none | ⟨front, rfl⟩ := ends
    · simp [some] at none
    · have text : lexeme.text = front ++ ')' :: gap := by simp [own]
      exact ⟨shaped.quoting text some, front, gap, text, some, by simp [Nat.add_assoc]⟩

theorem overrunsInside {pos skip : Nat} {lexemes : List Lexeme} (chained : Lexeme.Chained pos lexemes)
    (landed : Landed pos skip (lexemes.flatMap Lexeme.text)) :
    ∀ range ∈ overruns skip lexemes, ∃ lexeme ∈ lexemes, lexeme.Overrun range := by
  -- induction on the lexemes: the bytes to skip always end behind a closing parenthesis, so that a lexeme
  -- that goes on there holds one
  induction lexemes generalizing pos skip with
  | nil => simp [overruns]
  | cons lexeme rest ih =>
    obtain ⟨rfl, shaped, tail⟩ := chained
    rw [List.flatMap_cons] at landed
    have later {skip' : Nat} (reached : Landed lexeme.stop skip' (rest.flatMap Lexeme.text)) :
        ∀ range ∈ overruns skip' rest, ∃ lexeme' ∈ lexeme :: rest, lexeme'.Overrun range := by
      intro range inside
      obtain ⟨other, listed, overrun⟩ := ih tail reached range inside
      exact ⟨other, List.mem_cons_of_mem _ listed, overrun⟩
    rw [overruns]
    split
    · next begun =>
      intro range inside
      rcases List.mem_append.mp inside with own | further
      · split at own
        · next beyond =>
          rw [List.mem_singleton.mp own]
          exact ⟨lexeme, List.mem_cons_self, overrunFirst shaped landed begun beyond⟩
        · exact absurd own List.not_mem_nil
      · exact later landed.past range further
    · cases readAs lexeme rest with
      | address opens ends _ =>
        obtain ⟨passed, behind, whole, closes, reach, -⟩ := addressReach opens tail
        rw [ends]
        exact later (.inr ⟨passed, behind, whole, reach, closes⟩)
      | call _ ends _ =>
        rw [ends]
        exact later landed.past
      | item ends _ =>
        rw [ends]
        exact later landed.past

/-! ## Whole values -/

theorem nestedLaid {pos : Nat} {text rest : List Char} {calls : List OpenCall} {done : List ValueNode}
    {items : List ValueItem} {lost more : List ByteRange} (opened : Opened text calls done lost)
    (itemized : Itemized pos rest items more) (here : pos = byteSize text) :
    Laid 0 (text ++ rest) (nestCalls (byteSize (text ++ rest)) items calls done) (lost ++ more) := by
  -- induction on the items, with the calls that are open by then
  induction itemized generalizing text calls done lost with
  | nil => simpa [nestCalls] using opened.closeAll
  | @node pos written node _ _ _ _ bare laid _ ih =>
    subst here
    have pushed := ih (opened.push laid bare) (byteSizeAppend _ _).symm
    simpa [nestCalls] using pushed
  | @opening pos name _ _ _ _ ih =>
    subst here
    have inner := ih (@Opened.call text calls done lost name [] [] [] opened (by simp) .nil)
      (by simp [Nat.add_assoc])
    simpa [nestCalls] using inner
  | @closing pos _ _ _ _ ih =>
    subst here
    cases calls with
    | nil =>
      have word : Laid (byteSize text) [')'] [.leaf .word ")" ⟨byteSize text, byteSize text + 1⟩] [] :=
        leafAlone rfl (by simp)
      have pushed := ih (opened.push word trivial) (by simp)
      simpa [nestCalls] using pushed
    | cons call calls =>
      have closed := ih (opened.close true rfl) (by simp [closingText])
      simpa [nestCalls, closingText] using closed

theorem parsedLaid (value : String) :
    Laid 0 value.toList (parseValue value) (overruns 0 (Lexeme.lex 0 value.toList)) := by
  have items := valueItemized (Lexeme.lexChained 0 value.toList)
  rw [Lexeme.lexTexts] at items
  have start : Opened [] [] [] [] := .top (List.forall_mem_nil _) .nil
  exact nestedLaid start items rfl

end SheetLint
