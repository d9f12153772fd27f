import SheetLint.Color.Parse
import SheetLint.Magic.ColorHint
import SheetLint.Proofs.Trimming

/-! What a quick look for colors sees. A color in digits is seen wherever its word ends, and a color function
wherever it is closed on the line on which it is opened. -/
namespace SheetLint
open Text (isBlank)

/- A search that tries every place of a text, from left to right. Induction on the text that is left, with the
one in front of it. -/
theorem Text.searched (found search : Option Char → List Char → Bool)
    (ends : ∀ before, search before [] = found before [])
    (steps : ∀ before c rest, search before (c :: rest) = (found before (c :: rest) || search (some c) rest))
    {front text : List Char} :
    search front.getLast? text = true ↔
      ∃ between rest, text = between ++ rest ∧ found (front ++ between).getLast? rest = true := by
  induction text generalizing front with
  | nil =>
    rw [ends]
    constructor
    · exact fun here => ⟨[], [], rfl, by rwa [List.append_nil]⟩
    · rintro ⟨between, rest, whole, here⟩
      obtain ⟨rfl, rfl⟩ := List.append_eq_nil_iff.mp whole.symm
      rwa [List.append_nil] at here
  | cons c text ih =>
    have later := @ih (front ++ [c])
    simp only [List.getLast?_append, List.getLast?_singleton, Option.some_or, List.append_assoc,
      List.singleton_append] at later
    rw [steps, Bool.or_eq_true, later]
    constructor
    · rintro (here | ⟨between, rest, rfl, there⟩)
      · exact ⟨[], c :: text, rfl, by rwa [List.append_nil]⟩
      · exact ⟨c :: between, rest, rfl, by rwa [List.getLast?_append]⟩
    · rintro ⟨between, rest, whole, there⟩
      cases between with
      | nil =>
        rw [List.append_nil] at there
        exact .inl (whole ▸ there)
      | cons d between =>
        obtain ⟨rfl, rfl⟩ := List.cons.inj whole
        exact .inr ⟨between, rest, rfl, by rwa [List.getLast?_append] at there⟩

def Text.blankCodes : List Nat := [
  0x9, 0xa, 0xb, 0xc, 0xd, 0x20, 0x85, 0xa0, 0x1680, 0x2000, 0x2001, 0x2002, 0x2003, 0x2004, 0x2005, 0x2006,
  0x2007, 0x2008, 0x2009, 0x200a, 0x2028, 0x2029, 0x202f, 0x205f, 0x3000]

theorem Text.blankCode {c : Char} (blank : isBlank c = true) : c.toNat ∈ blankCodes := by
  simp only [isBlank, Ranges.has, blanks, Ranges.hasCode, Bool.ite_eq_true_distrib, Bool.false_eq_true,
    if_false_left, if_true_left, imp_false, Decidable.not_not] at blank
  simp only [blankCodes, List.mem_cons, List.not_mem_nil, or_false]
  omega

theorem Text.visibleClass {p : Char → Bool} (none : ∀ code ∈ blankCodes, p (Char.ofNat code) = false) {c : Char}
    (own : p c = true) : isBlank c = false := by
  rw [Bool.eq_false_iff]
  intro blank
  have other := none c.toNat (blankCode blank)
  rw [Char.ofNat_toNat, own] at other
  cases other

namespace ColorHint

def Ends (c : Char) : Prop := isHexDigit c = false ∧ Text.isWordChar c = false

instance (c : Char) : Decidable (Ends c) := inferInstanceAs (Decidable (_ ∧ _))

theorem blankEnds {c : Char} (blank : isBlank c = true) : Ends c := by
  have all : ∀ code ∈ Text.blankCodes, Ends (Char.ofNat code) := by decide +kernel
  simpa using all c.toNat (Text.blankCode blank)

theorem occursHere {text : List Char} (seen : colorAt text = true) : occurs text = true := by
  cases text with
  | nil => cases seen
  | cons c rest => rw [occurs, seen, Bool.true_or]

theorem occursBehind (front : List Char) {text : List Char} (seen : occurs text = true) :
    occurs (front ++ text) = true := by
  induction front with
  | nil => exact seen
  | cons c rest ih => rw [List.cons_append, occurs, ih, Bool.or_true]

theorem hexSeen {digits rest : List Char} (hex : ∀ c ∈ digits, isHexDigit c = true)
    (least : 3 ≤ digits.length) (most : digits.length ≤ 8) (ends : ∀ c ∈ rest.head?, Ends c) :
    colorAt ('#' :: (digits ++ rest)) = true := by
  have counted : (digits ++ rest).takeWhile isHexDigit = digits ∧
      (digits ++ rest).dropWhile isHexDigit = rest := by
    rw [List.takeWhile_append_of_pos hex, List.dropWhile_append_of_pos hex]
    cases rest with
    | nil => simp
    | cons c cs => simp [(ends c rfl).1]
  have bounded : rest.head?.any Text.isWordChar = false := by
    cases rest with
    | nil => rfl
    | cons c cs => exact (ends c rfl).2
  simp [colorAt, hexAt, counted, bounded, least, most]

/-! ## Functions -/

theorem lowerKeeps {α : Type} {f : Char → α}
    (capitals : ∀ n < 26, f (Char.ofNat (65 + n)).toLower = f (Char.ofNat (65 + n))) (c : Char) :
    f c.toLower = f c := by
  by_cases upper : 'A'.val ≤ c.val ∧ c.val ≤ 'Z'.val
  · have low : 65 ≤ c.toNat := UInt32.le_iff_toNat_le.mp upper.1
    have high : c.toNat ≤ 90 := UInt32.le_iff_toNat_le.mp upper.2
    have own := capitals (c.toNat - 65) (by omega)
    rwa [Nat.add_sub_cancel' low, Char.ofNat_toNat] at own
  · have same : c.toLower = c := dif_neg upper
    rw [same]

theorem leastCaseLower (c : Char) : Text.leastCase c.toLower = Text.leastCase c :=
  lowerKeeps (by decide) c

theorem sameLower {a b : Char} (same : a.toLower = b.toLower) : Text.sameLetter a b = true := by
  rw [Text.sameLetter, beq_iff_eq, ← leastCaseLower a, ← leastCaseLower b, same]

theorem callNamed {pattern name : List Char} (rest : List Char)
    (same : name.map Char.toLower = pattern.map Char.toLower) :
    callAt pattern (name ++ rest) = callAt [] rest := by
  induction pattern generalizing name with
  | nil =>
    obtain rfl : name = [] := List.map_eq_nil_iff.mp same
    rfl
  | cons a pattern ih =>
    cases name with
    | nil => cases same
    | cons b name =>
      obtain ⟨first, others⟩ := List.cons_eq_cons.mp same
      rw [List.cons_append, callAt, sameLower first.symm, Bool.true_and, ih others]

theorem closedHere {inner : List Char} (line : '\n' ∉ inner) (rest : List Char) :
    closedCall ('(' :: (inner ++ ')' :: rest)) = true := by
  have kept : ∀ c ∈ inner, (c != '\n') = true := fun c inside => by
    rw [bne_iff_ne]
    rintro rfl
    exact line inside
  simp [closedCall, List.takeWhile_append_of_pos kept]

def isFunctionName (name : List Char) : Bool :=
  Color.isName "rgb" name || Color.isName "rgba" name || (Color.isName "hsl" name || Color.isName "hsla" name)

theorem callNamedAlpha {pattern name : List Char} {rest : List Char} (closed : closedCall rest = true)
    (same : name.map Char.toLower = (pattern ++ ['a']).map Char.toLower) :
    callAt pattern (name ++ rest) = true := by
  rw [List.map_append, List.map_eq_append_iff] at same
  obtain ⟨front, last, rfl, own, alpha⟩ := same
  obtain ⟨c, rfl, lower⟩ := List.map_eq_singleton_iff.mp alpha
  rw [List.append_assoc, callNamed _ own]
  simp [callAt, @sameLower 'a' c lower.symm, closed]

theorem functionSeen {name inner : List Char} (named : isFunctionName name = true) (line : '\n' ∉ inner)
    (rest : List Char) : colorAt (name ++ '(' :: (inner ++ ')' :: rest)) = true := by
  have closed := closedHere line rest
  have plain : callAt [] ('(' :: (inner ++ ')' :: rest)) = true := by rw [callAt, closed, Bool.true_or]
  simp only [isFunctionName, Color.isName, Text.sameIgnoringCase, Bool.or_eq_true, beq_iff_eq] at named
  rw [colorAt]
  rcases named with (rgb | rgba) | (hsl | hsla)
  · rw [@callNamed ['r', 'g', 'b'] name _ rgb, plain, Bool.or_true, Bool.true_or]
  · rw [@callNamedAlpha ['r', 'g', 'b'] name _ closed rgba, Bool.or_true, Bool.true_or]
  · rw [@callNamed ['h', 's', 'l'] name _ hsl, plain, Bool.or_true]
  · rw [@callNamedAlpha ['h', 's', 'l'] name _ closed hsla, Bool.or_true]

end ColorHint

/-! ## Texts that denote colors -/

open ColorHint (isHexDigit isFunctionName)

theorem Text.hexDigitsAll {cs : List Char} {digits : List Nat} (read : hexDigits? cs = some digits) :
    (∀ c ∈ cs, isHexDigit c = true) ∧ cs.length = digits.length := by
  induction cs generalizing digits with
  | nil =>
    cases read
    simp
  | cons c cs ih =>
    rw [hexDigits?, List.mapM_cons] at read
    obtain ⟨digit, own, others⟩ := Option.bind_eq_some_iff.mp read
    obtain ⟨more, rest, whole⟩ := Option.bind_eq_some_iff.mp others
    cases whole
    obtain ⟨hex, count⟩ := ih rest
    exact ⟨List.forall_mem_cons.mpr ⟨by rw [isHexDigit, own]; rfl, hex⟩, by simp [count]⟩

inductive ColorText : List Char → Prop where
  | digits {digits : List Char} (hex : ∀ c ∈ digits, isHexDigit c = true) (least : 3 ≤ digits.length)
      (most : digits.length ≤ 8) : ColorText ('#' :: digits)
  | function {name inner : List Char} (named : isFunctionName name = true) (single : '(' ∉ inner)
      (closed : ')' ∉ inner) : ColorText (name ++ '(' :: (inner ++ [')']))

theorem ColorText.ofDigits {cs : List Char} {color : Rgba} (read : Rgba.ofHex? cs = some color) :
    ColorText ('#' :: cs) := by
  obtain ⟨digits, all, counted⟩ := Option.bind_eq_some_iff.mp read
  obtain ⟨hex, count⟩ := Text.hexDigitsAll all
  have length : 3 ≤ digits.length ∧ digits.length ≤ 8 := by
    unfold Rgba.ofDigits? at counted
    split at counted <;> simp_all
  exact .digits hex (by omega) (by omega)

theorem ColorText.ofFunction {cs : List Char} {color : Rgba} (read : Color.function? cs = some color) :
    ColorText cs := by
  rw [Color.function?] at read
  obtain ⟨⟨name, inside⟩, cut, read⟩ := Option.bind_eq_some_iff.mp read
  simp only at read
  split at read
  · next checked =>
    simp only [Bool.and_eq_true, beq_iff_eq, Bool.not_eq_true'] at checked
    obtain ⟨⟨⟨⟨last, named⟩, single⟩, closed⟩, -⟩ := checked
    obtain ⟨inner, rfl⟩ := List.getLast?_eq_some_iff.mp last
    rw [Text.splitFirstWhole cut]
    exact .function named (by simpa using single) (by simpa using closed)
  · cases read

theorem ColorText.ofTrimmed {text : String} {color : Rgba} (read : Rgba.parse? text = some color) :
    ColorText (Text.trim text.toList) := by
  rw [Rgba.parse?] at read
  split at read
  · next digits whole =>
    rw [whole]
    exact .ofDigits read
  · exact .ofFunction read

theorem ColorText.ofParse {text : String} {color : Rgba} (read : Rgba.parse? text = some color) :
    ∃ before shown after, text.toList = before ++ (shown ++ after) ∧ (∀ c ∈ before, isBlank c = true) ∧
      (∀ c ∈ after, isBlank c = true) ∧ ColorText shown := by
  refine ⟨Text.leading text.toList, Text.trim text.toList, Text.trailing (Text.trimStart text.toList), ?_,
    Text.leadingBlank _, Text.trailingBlank _, .ofTrimmed read⟩
  rw [Text.trim, Text.trimEndTrailing, Text.leadingTrimStart]

end SheetLint
