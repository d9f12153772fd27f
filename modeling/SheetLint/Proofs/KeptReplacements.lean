import Mathlib.Data.List.Forall2
import SheetLint.Proofs.HiddenMatches

/-! What a matcher makes of its own replacement. It is left alone exactly where the key is not found in it: a word
in no spelling, a family name as no entry of the list, and a color in no writing but that of the whole text. So a
replacement that is one color literal is left alone, and one that holds the key beside other text is not. -/
namespace SheetLint

/-! ## Words -/

namespace Word

structure Occurrence (word front part rest : List Char) : Prop where
  letters : List.Forall₂ (fun a b => Text.sameLetter a b = true) word part
  opens : isWordChar? word.head? = true → isBoundary front.getLast? (part ++ rest).head? = true
  closes : isWordChar? word.getLast? = true → isBoundary part.getLast? rest.head? = true

theorem beginsSpelled {word text : List Char} :
    beginsWith word text = true ↔
      List.Forall₂ (fun a b => Text.sameLetter a b = true) word (text.take word.length) := by
  induction word generalizing text with
  | nil => simp [beginsWith]
  | cons a word ih =>
    cases text with
    | nil => simp [beginsWith]
    | cons b text => simp [beginsWith, ih]

theorem occursAtSpelled {word front text : List Char} :
    occursAt word front.getLast? text = true ↔ ∃ part rest, text = part ++ rest ∧ Occurrence word front part rest := by
  constructor
  · intro found
    simp only [occursAt, Bool.and_eq_true, Bool.or_eq_true, Bool.not_eq_true', beginsSpelled] at found
    obtain ⟨⟨letters, opens⟩, closes⟩ := found
    refine ⟨_, _, (List.take_append_drop word.length text).symm, letters, fun edge => ?_, fun edge => ?_⟩
    · rw [List.take_append_drop]
      exact opens.resolve_left (by simp [edge])
    · exact closes.resolve_left (by simp [edge])
  · intro found
    obtain ⟨part, rest, rfl, spelled⟩ := found
    have length := spelled.letters.length_eq
    simp only [occursAt, Bool.and_eq_true, Bool.or_eq_true, Bool.not_eq_true', beginsSpelled, length,
      List.take_left, List.drop_left]
    refine ⟨⟨spelled.letters, ?_⟩, ?_⟩
    · exact (Bool.eq_false_or_eq_true _).symm.imp_right spelled.opens
    · exact (Bool.eq_false_or_eq_true _).symm.imp_right spelled.closes

theorem occursFromSpelled {word front text : List Char} :
    occursFrom word front.getLast? text = true ↔
      ∃ between part rest, text = between ++ (part ++ rest) ∧ Occurrence word (front ++ between) part rest := by
  rw [Text.searched (occursAt word) (occursFrom word) (fun _ => rfl) fun _ _ _ => rfl]
  constructor
  · rintro ⟨between, rest, rfl, here⟩
    obtain ⟨part, rest, rfl, spelled⟩ := occursAtSpelled.mp here
    exact ⟨between, part, rest, rfl, spelled⟩
  · rintro ⟨between, part, rest, rfl, spelled⟩
    exact ⟨between, part ++ rest, rfl, occursAtSpelled.mpr ⟨part, rest, rfl, spelled⟩⟩

end Word

/-! ## Colors -/

theorem Laid.outermost {pos : Nat} {text : List Char} {nodes : List ValueNode} {lost : List ByteRange}
    (laid : Laid pos text nodes lost) (isHit : ValueNode → Bool) :
    (ValueNode.visitAll (fun node => !isHit node) nodes).filter isHit = [] ↔
      ∀ node ∈ ValueNode.visitAll (fun _ => true) nodes, isHit node = false := by
  induction laid with
  | nil => simp [ValueNode.visitAll]
  | @leaf pos kind own written rest nodes lost _ visible _ ih =>
    rw [ValueNode.visitAllLeaf, ValueNode.visitAllLeaf, List.filter_cons, List.forall_mem_cons, ← ih]
    split
    · next hit => simp [hit]
    · next other => simp [other]
  | @call pos name before after closed inner args gap rest nodes lost more _ _ inside tail =>
    rw [ValueNode.visitAllCall, ValueNode.visitAllCall, List.filter_cons, List.forall_mem_cons, if_pos rfl,
      List.forall_mem_append, ← inside, ← tail]
    split
    · next hit => simp [hit]
    · next other =>
      rw [Bool.not_eq_true] at other
      simp [other]

namespace ColorHint

theorem functionNameAlone {front name : List Char} (whole : isFunctionName (front ++ name) = true)
    (named : isFunctionName name = true) : front = [] := by
  have listed {name : List Char} (named : isFunctionName name = true) :
      name.map Char.toLower ∈ ["rgb".toList, "rgba".toList, "hsl".toList, "hsla".toList] := by
    simpa [isFunctionName, Color.isName, Text.sameIgnoringCase, or_assoc] using named
  have alone : ∀ long ∈ ["rgb".toList, "rgba".toList, "hsl".toList, "hsla".toList],
      ∀ short ∈ ["rgb".toList, "rgba".toList, "hsl".toList, "hsla".toList], short <:+ long → short = long := by
    decide
  have behind : name.map Char.toLower <:+ (front ++ name).map Char.toLower :=
    ⟨front.map Char.toLower, List.map_append.symm⟩
  have same := congrArg List.length (alone _ (listed whole) _ (listed named) behind)
  simp only [List.length_map, List.length_append] at same
  exact List.length_eq_zero_iff.mp (by omega)

end ColorHint

namespace ColorText
variable {front part behind : List Char}

theorem functionWhole (color : ColorText (front ++ (part ++ behind))) (inside : ColorText part) (opens : '(' ∈ part) :
    front = [] ∧ behind = [] := by
  cases inside with
  | digits hex _ _ => exact absurd opens (digitsUnopened hex)
  | @function name inner named _ _ =>
    generalize whole : front ++ (name ++ '(' :: (inner ++ [')']) ++ behind) = shown at color
    cases color with
    | digits hex _ _ =>
      refine absurd ?_ (digitsUnopened hex)
      rw [← whole]
      simp
    | @function other inside called once ends =>
      have cut : other ++ '(' :: (inside ++ [')']) = (front ++ name) ++ '(' :: (inner ++ ')' :: behind) := by
        rw [← whole]
        simp
      obtain ⟨names, -, args⟩ := (List.append_cons_inj_of_notMem (nameUnopened called) (by simpa using once)).mp cut
      obtain ⟨-, -, none⟩ := (List.append_cons_inj_of_notMem ends List.not_mem_nil).mp args
      exact ⟨ColorHint.functionNameAlone (names ▸ called) named, none.symm⟩

theorem digitsWhole (color : ColorText (front ++ (part ++ behind))) (sharp : part.head? = some '#')
    (alone : '#' ∉ (front ++ (part ++ behind)).tail) (ends : ∀ c ∈ behind.head?, ColorHint.Ends c) :
    front = [] ∧ behind = [] := by
  obtain ⟨more, rfl⟩ := List.head?_eq_some_iff.mp sharp
  have none : front = [] := by
    cases front with
    | nil => rfl
    | cons c front => simp at alone
  subst none
  refine ⟨rfl, ?_⟩
  generalize whole : [] ++ ('#' :: more ++ behind) = shown at color
  cases color with
  | digits hex _ _ =>
    cases behind with
    | nil => rfl
    | cons c behind =>
      obtain ⟨-, same⟩ := List.cons.inj whole
      have digit := hex c (same ▸ by simp)
      exact absurd ((ends c rfl).1.symm.trans digit) Bool.false_ne_true
  | @function name inner named _ _ =>
    cases name with
    | nil => cases named
    | cons c name =>
      obtain ⟨rfl, -⟩ := List.cons.inj whole
      simp [ColorHint.isFunctionName, Color.isName, Text.sameIgnoringCase] at named

end ColorText

theorem colorWhole {text : String} {color other : Rgba} {node : ValueNode} (read : Rgba.parse? text = some color)
    (bare : Text.trim text.toList = text.toList) (alone : '#' ∉ text.toList.tail)
    {descend : ValueNode → Bool} (visited : node ∈ ValueNode.visitAll descend (parseValue text))
    (shape : Matcher.isColorNode node = true) (inner : Rgba.parse? node.render = some other) :
    node.render = text := by
  have literal : ColorText text.toList := bare ▸ ColorText.ofTrimmed read
  cases node with
  | leaf kind word range =>
    obtain ⟨top, listed, reached⟩ := ValueNode.memVisitAll.mp visited
    have words := parsedBounded text top listed descend _ reached
    cases kind with
    | word =>
      have sharp : word.toList.head? = some '#' := by simpa [Matcher.isColorNode] using shape
      obtain ⟨before, after, whole, ends⟩ := words sharp
      rw [whole] at literal alone
      obtain ⟨rfl, rfl⟩ := literal.digitsWhole sharp alone ends
      exact String.toList_inj.mp (by simpa [ValueNode.renderLeaf, LeafKind.written] using whole.symm)
    | space | string _ _ | divider _ _ | comment _ => cases shape
  | call name before after args closed range =>
    obtain ⟨front, behind, whole, -⟩ :=
      (parsedLaid text).rendered descend _ visited (colorArgsUnopened inner)
    obtain ⟨blanks, shown, trail, own, leads, trails, denoted⟩ := ColorText.ofParse inner
    have opens : '(' ∈ shown := by
      have listed : '(' ∈ blanks ++ (shown ++ trail) := by
        rw [← own, ValueNode.renderCall, callText]
        simp
      simpa [List.count_eq_zero.mp (blanksUnopened leads), List.count_eq_zero.mp (blanksUnopened trails)] using listed
    rw [own] at whole
    have apart : text.toList = (front ++ blanks) ++ (shown ++ (trail ++ behind)) := by simp [whole]
    obtain ⟨none, nothing⟩ := (apart ▸ literal).functionWhole denoted opens
    obtain ⟨rfl, rfl⟩ := List.append_eq_nil_iff.mp none
    obtain ⟨rfl, rfl⟩ := List.append_eq_nil_iff.mp nothing
    exact String.toList_inj.mp (own.trans (by simp [whole]))

/-! ## Replacements -/

theorem Text.sliceInfix {text part : List Char} {start stop : Nat} (cut : slice? text start stop = some part) :
    part <:+: text := by
  rw [slice?] at cut
  split at cut
  · obtain ⟨p, first, cut⟩ := Option.bind_eq_some_iff.mp cut
    obtain ⟨q, second, rfl⟩ := Option.map_eq_some_iff.mp cut
    rw [(splitAtWhole first).1, (splitAtWhole second).1]
    exact ⟨p.1, q.2, List.append_assoc p.1 q.1 q.2⟩
  · cases cut

namespace Matcher

/- The key in a text: a word in some spelling, a color in another writing than that of the whole text, a family name
between commas. -/
def FoundInside (matcher : Matcher) (text : String) : Prop :=
  match matcher.strategy with
  | .word => ∃ front part rest, text.toList = front ++ (part ++ rest) ∧
      Word.Occurrence matcher.key.toList front part rest
  | .color reference => ∃ node ∈ ValueNode.visitAll (fun _ => true) (parseValue text),
      isColorNode node = true ∧ text ≠ node.render ∧ Rgba.parse? node.render = some reference
  | .familyName => ∃ group ∈ ValueNode.splitOnDivider "," (parseValue text),
      ValueNode.unquoteAll group = matcher.key ∧ group ≠ []

def Unhidden (matcher : Matcher) (text : String) : Prop :=
  match matcher.strategy with
  | .word => True
  | .color _ => '\n' ∉ text.toList
  | .familyName => ∀ group ∈ ValueNode.splitOnDivider "," (parseValue text),
      ¬ValueNode.PartlyQuoted group ∧ ¬ValueNode.Lossy text group

section Replacement
variable {matcher : Matcher} {replacement : String}

theorem wordTested (form : matcher.strategy = .word) (text : String) :
    matcher.test text = true ↔ matcher.FoundInside text := by
  have spelled := @Word.occursFromSpelled matcher.key.toList [] text.toList
  simpa [test, FoundInside, form, Engine.own, Word.occurs] using spelled

theorem colorsLocated (own : matcher.replacement = some replacement) {reference : Rgba}
    (form : matcher.strategy = .color reference) :
    matcher.locateColors reference (parseValue replacement) = [] ↔ ¬matcher.FoundInside replacement := by
  rw [locateColors, List.map_eq_nil_iff, (parsedLaid replacement).outermost]
  simp [FoundInside, form, isColor, Engine.own, own]

theorem familyLocated (form : matcher.strategy = .familyName) (text : String) :
    matcher.locateFamily (parseValue text) = [] ↔ ¬matcher.FoundInside text := by
  have ranged (group : List ValueNode) : groupRange? group = none ↔ group = [] := by
    cases group with
    | nil => simp [groupRange?]
    | cons node group => simp [groupRange?, List.getLast?_cons]
  simp [locateFamily, FoundInside, form, List.filterMap_eq_nil_iff, ranged]

theorem executedNone (own : matcher.replacement = some replacement) :
    matcher.execute replacement = [] ↔ ¬(matcher.test replacement = true ∧ matcher.FoundInside replacement) := by
  rw [execute]
  split
  · next seen =>
    rw [locate]
    cases form : matcher.strategy with
    | word => simp [seen, (wordTested form replacement).mp seen]
    | color reference => simp [seen, colorsLocated own form]
    | familyName => simp [seen, familyLocated form]
  · next unseen => simp [unseen]

theorem foundTested (own : matcher.replacement = some replacement) (plain : matcher.Unhidden replacement)
    (found : matcher.FoundInside replacement) : matcher.test replacement = true := by
  cases form : matcher.strategy with
  | word => exact (wordTested form replacement).mpr found
  | color reference =>
    rw [FoundInside, form] at found
    rw [Unhidden, form] at plain
    obtain ⟨node, visited, shape, other, read⟩ := found
    have hit : matcher.isColor reference node = true := by
      simp [isColor, Engine.own, own, shape, other, read]
    rw [test, form]
    rcases matcher.colorSeen visited hit with seen | ⟨part, cut, inside⟩
    · exact seen
    · exact absurd ((Text.sliceInfix cut).subset inside) plain
  | familyName =>
    rw [FoundInside, form] at found
    rw [Unhidden, form] at plain
    obtain ⟨group, listed, named, -⟩ := found
    obtain ⟨entire, kept⟩ := plain group listed
    rw [test, form, ← named]
    exact familySeen listed kept entire

theorem literalKept {reference color : Rgba} (form : matcher.strategy = .color reference)
    (read : Rgba.parse? replacement = some color) (bare : Text.trim replacement.toList = replacement.toList)
    (alone : '#' ∉ replacement.toList.tail) : ¬matcher.FoundInside replacement := by
  intro found
  rw [FoundInside, form] at found
  obtain ⟨node, visited, shape, other, inner⟩ := found
  exact other (colorWhole read bare alone visited shape inner).symm

end Replacement

/- A replacement is left alone exactly if it does not pass the quick check or the key is not found in it. No other
color is found in a color literal. -/
theorem replacementKeptExactly (matcher : Matcher) (replacement : String)
    (own : matcher.replacement = some replacement) :
    (matcher.execute replacement = [] ↔
      ¬(matcher.test replacement = true ∧ matcher.FoundInside replacement)) ∧
    (matcher.Unhidden replacement →
      (matcher.execute replacement = [] ↔ ¬matcher.FoundInside replacement)) ∧
    (∀ reference color, matcher.strategy = .color reference → Rgba.parse? replacement = some color →
      Text.trim replacement.toList = replacement.toList → '#' ∉ replacement.toList.tail →
        matcher.execute replacement = []) := by
  have executed := executedNone own
  refine ⟨executed, ?_, ?_⟩
  · intro plain
    rw [executed]
    exact not_congr (and_iff_right_of_imp (foundTested own plain))
  · intro reference color form read bare alone
    rw [executed]
    exact fun both => literalKept form read bare alone both.2

def wordMatcher (key replacement : String) : Matcher := ⟨key, .word, none, some replacement, []⟩

def fontMatcher (key replacement : String) : Matcher := ⟨key, .familyName, none, some replacement, []⟩

def darkMatcher (replacement : String) : Matcher := ⟨"#000", .color ⟨0, 0, 0, 255⟩, none, some replacement, []⟩

theorem replacementKeptLiteral :
    (darkMatcher "rgb(none none none)").test "rgb(none none none)" = true ∧
      (darkMatcher "rgb(none none none)").execute "rgb(none none none)" = [] := by
  have read : Rgba.parse? "rgb(none none none)" = some ⟨0, 0, 0, 255⟩ := by decide +kernel
  have kept := (replacementKeptExactly (darkMatcher "rgb(none none none)") _ rfl).2.2
  exact ⟨by decide +kernel, kept _ _ rfl read (by decide) (by decide)⟩

theorem replacementHoldsKey :
    (wordMatcher "bold" "extra bold").execute "extra bold" = [⟨0, 10⟩] ∧
    (fontMatcher "Arial" "Arial, sans-serif").execute "Arial, sans-serif" = [⟨0, 5⟩] ∧
    (darkMatcher "1px #000").execute "1px #000" = [⟨4, 8⟩] := by
  decide +kernel

end Matcher
end SheetLint
