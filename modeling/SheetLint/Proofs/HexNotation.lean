import SheetLint.Proofs.ColorHints

/-! Colors in hexadecimal digits. Every writing of a color has a full one, of eight small digits: the digits of a
short writing are doubled, and an alpha value that is not written is `ff`. A text with a hash sign is read if it
is such a writing, as the color whose four bytes have the full digits. -/
namespace SheetLint
open Text (isBlank hexDigit? hexDigits?)

/-! ## Digits -/

namespace Text

def hexLetters : List Char := "0123456789abcdef".toList

theorem hexLettersMem {c : Char} : c ∈ hexLetters ↔ ∃ n < 16, c = Nat.digitChar n := by
  have all : hexLetters = (List.range 16).map Nat.digitChar := by decide
  simp only [all, List.mem_map, List.mem_range, eq_comm]

theorem hexDigitChar {n : Nat} (small : n < 16) : hexDigit? (Nat.digitChar n) = some n := by
  revert n
  decide

theorem hexLettersValues {cs : List Char} (letters : ∀ c ∈ cs, c.toLower ∈ hexLetters) :
    ∃ values : List Nat, (∀ n ∈ values, n < 16) ∧ cs.map Char.toLower = values.map Nat.digitChar := by
  induction cs with
  | nil => exact ⟨[], by simp, rfl⟩
  | cons c cs ih =>
    obtain ⟨own, others⟩ := List.forall_mem_cons.mp letters
    obtain ⟨n, small, letter⟩ := hexLettersMem.mp own
    obtain ⟨values, smaller, rest⟩ := ih others
    exact ⟨n :: values, List.forall_mem_cons.mpr ⟨small, smaller⟩, by simp [letter, rest]⟩

theorem hexDigitLower (c : Char) : hexDigit? c.toLower = hexDigit? c :=
  ColorHint.lowerKeeps (by decide) c

theorem hexDigitAscii {c : Char} {n : Nat} (read : hexDigit? c = some n) : c.toNat < 128 := by
  have small {d : Char} (below : c ≤ d) (bound : d.toNat < 128) : c.toNat < 128 :=
    Nat.lt_of_le_of_lt (UInt32.le_iff_toNat_le.mp below) bound
  unfold hexDigit? at read
  split_ifs at read with decimal lower upper
  · exact small decimal.2 (by decide)
  · exact small lower.2 (by decide)
  · exact small upper.2 (by decide)

theorem hexDigitExact {c : Char} {n : Nat} :
    hexDigit? c = some n ↔ n < 16 ∧ c.toLower = Nat.digitChar n := by
  constructor
  · intro read
    have all : ∀ code < 128, ∀ n ∈ hexDigit? (Char.ofNat code),
        n < 16 ∧ (Char.ofNat code).toLower = Nat.digitChar n := by decide
    have own := all c.toNat (hexDigitAscii read) n
    rw [Char.ofNat_toNat] at own
    exact own read
  · rintro ⟨small, letter⟩
    rw [← hexDigitLower, letter, hexDigitChar small]

theorem hexDigitsExact {cs : List Char} {values : List Nat} :
    hexDigits? cs = some values ↔ (∀ n ∈ values, n < 16) ∧ cs.map Char.toLower = values.map Nat.digitChar := by
  induction cs generalizing values with
  | nil =>
    cases values with
    | nil => simp [hexDigits?]
    | cons n values => simp [hexDigits?]
  | cons c cs ih =>
    rw [hexDigits?, List.mapM_cons]
    simp only [Option.bind_eq_bind, Option.bind_eq_some_iff, Option.pure_def, Option.some_inj]
    constructor
    · rintro ⟨n, own, more, rest, rfl⟩
      obtain ⟨small, letter⟩ := hexDigitExact.mp own
      obtain ⟨others, letters⟩ := ih.mp rest
      exact ⟨List.forall_mem_cons.mpr ⟨small, others⟩, by rw [List.map_cons, letter, letters, List.map_cons]⟩
    · intro all
      cases values with
      | nil => simp at all
      | cons n values =>
        obtain ⟨small, letters⟩ := all
        rw [List.map_cons, List.map_cons, List.cons_eq_cons] at letters
        rw [List.forall_mem_cons] at small
        exact ⟨n, hexDigitExact.mpr ⟨small.1, letters.1⟩, values, ih.mpr ⟨small.2, letters.2⟩, rfl⟩

end Text

/-! ## Full writings -/

structure HexLiteral where
  digits : List Char
  hex : ∀ c ∈ digits, c.toLower ∈ Text.hexLetters
  counted : digits.length = 3 ∨ digits.length = 4 ∨ digits.length = 6 ∨ digits.length = 8

namespace HexLiteral

def text (literal : HexLiteral) : List Char := '#' :: literal.digits

def widen (digits : List Char) : List Char :=
  if digits.length ≤ 4 then digits.flatMap fun d => [d, d] else digits

def withAlpha (digits : List Char) : List Char :=
  if digits.length = 6 then digits ++ ['f', 'f'] else digits

def full (literal : HexLiteral) : List Char := withAlpha (widen (literal.digits.map Char.toLower))

end HexLiteral

namespace Rgba

def fullDigits (color : Rgba) : List Char :=
  byteDigits color.red ++ byteDigits color.green ++ byteDigits color.blue ++ byteDigits color.alpha

theorem pairDigits {high low : Nat} (smallHigh : high < 16) (smallLow : low < 16) :
    byteDigits (pair high low) = [Nat.digitChar high, Nat.digitChar low] := by
  have value : (pair high low).toNat = 16 * high + low := by
    simp only [pair, Nat.toUInt8, UInt8.toNat_ofNat']
    omega
  rw [byteDigits, value, show (16 * high + low) / 16 = high by omega, show (16 * high + low) % 16 = low by omega]

theorem byteDigitsInjective {a b : UInt8} (same : byteDigits a = byteDigits b) : a = b := by
  have sizeA := a.toNat_lt
  have sizeB := b.toNat_lt
  have value {m n : Nat} (smallM : m < 16) (smallN : n < 16) (letter : Nat.digitChar m = Nat.digitChar n) :
      m = n :=
    Option.some.inj ((Text.hexDigitChar smallM).symm.trans (letter ▸ Text.hexDigitChar smallN))
  simp only [byteDigits, List.cons_eq_cons, and_true] at same
  have high := value (by omega) (by omega) same.1
  have low := value (by omega) (by omega) same.2
  exact UInt8.toNat_inj.mp (by omega)

theorem fullDigitsInjective {a b : Rgba} (same : a.fullDigits = b.fullDigits) : a = b := by
  obtain ⟨front, alpha⟩ := List.append_inj same rfl
  obtain ⟨front, blue⟩ := List.append_inj front rfl
  obtain ⟨red, green⟩ := List.append_inj front rfl
  cases a
  cases b
  rw [Rgba.mk.injEq]
  exact ⟨byteDigitsInjective red, byteDigitsInjective green, byteDigitsInjective blue, byteDigitsInjective alpha⟩

theorem ofDigitsCounted (values : List Nat) :
    (ofDigits? values).isSome = true ↔
      values.length = 3 ∨ values.length = 4 ∨ values.length = 6 ∨ values.length = 8 := by
  rcases values with _ | ⟨a, _ | ⟨b, _ | ⟨c, _ | ⟨d, _ | ⟨e, _ | ⟨f, _ | ⟨g, _ | ⟨h, _ | ⟨i, rest⟩⟩⟩⟩⟩⟩⟩⟩⟩
  all_goals simp [ofDigits?]

theorem ofDigitsFull {values : List Nat} {color : Rgba} (small : ∀ n ∈ values, n < 16)
    (read : ofDigits? values = some color) :
    HexLiteral.withAlpha (HexLiteral.widen (values.map Nat.digitChar)) = color.fullDigits := by
  have solid : byteDigits 255 = ['f', 'f'] := by decide
  unfold ofDigits? at read
  split at read
  case h_5 => cases read
  all_goals
    cases read
    simp only [List.mem_cons, List.not_mem_nil, or_false, forall_eq_or_imp, forall_eq] at small
    simp [fullDigits, pairDigits, small, solid, HexLiteral.widen, HexLiteral.withAlpha]

end Rgba

namespace HexLiteral

theorem read (literal : HexLiteral) :
    ∃ color, Rgba.ofHex? literal.digits = some color ∧ literal.full = color.fullDigits := by
  obtain ⟨values, small, letters⟩ := Text.hexLettersValues literal.hex
  have digits := Text.hexDigitsExact.mpr ⟨small, letters⟩
  have counted : (Rgba.ofDigits? values).isSome = true := by
    have count := congrArg List.length letters
    rw [List.length_map, List.length_map] at count
    rw [Rgba.ofDigitsCounted, ← count]
    exact literal.counted
  obtain ⟨color, own⟩ := Option.isSome_iff_exists.mp counted
  refine ⟨color, by rw [Rgba.ofHex?, digits, Option.bind_some, own], ?_⟩
  rw [full, letters, Rgba.ofDigitsFull small own]

theorem ofRead {digits : List Char} {color : Rgba} (read : Rgba.ofHex? digits = some color) :
    ∃ literal : HexLiteral, literal.digits = digits := by
  obtain ⟨values, own, counted⟩ := Option.bind_eq_some_iff.mp read
  obtain ⟨small, letters⟩ := Text.hexDigitsExact.mp own
  refine ⟨⟨digits, fun c listed => ?_, ?_⟩, rfl⟩
  · obtain ⟨n, inside, letter⟩ := List.mem_map.mp (letters ▸ List.mem_map_of_mem listed)
    exact Text.hexLettersMem.mpr ⟨n, small n inside, letter.symm⟩
  · have count := congrArg List.length letters
    rw [List.length_map, List.length_map] at count
    rw [count, ← Rgba.ofDigitsCounted, counted]
    rfl

end HexLiteral

/-! ## Texts -/

theorem Text.trimHash (rest : List Char) : trim ('#' :: rest) = '#' :: trimEnd rest := by
  have visible : isBlank '#' = false := by decide
  rw [trim, trimStartVisible (by simpa using visible)]
  exact trimEndVisible visible [] rest

theorem HexLiteral.trimmed (literal : HexLiteral) : Text.trim literal.text = literal.text := by
  have visible : ∀ c ∈ literal.digits.getLast?, isBlank c = false := by
    intro c last
    obtain ⟨n, small, letter⟩ := Text.hexLettersMem.mp (literal.hex c (List.mem_of_mem_getLast? last))
    have read := Text.hexDigitExact.mpr ⟨small, letter⟩
    by_contra blank
    have ends := (ColorHint.blankEnds (Bool.not_eq_false _ ▸ blank)).1
    rw [ColorHint.isHexDigit, read] at ends
    cases ends
  have whole := Text.trimEndBlanks visible (List.forall_mem_nil _)
  rw [List.append_nil] at whole
  rw [text, Text.trimHash, whole]

namespace Rgba

theorem parseHash {text : String} {digits : List Char} (trimmed : Text.trim text.toList = '#' :: digits) :
    parse? text = ofHex? digits := by
  rw [parse?, trimmed]
  rfl

theorem parseLiteral {text : String} {literal : HexLiteral} (trimmed : Text.trim text.toList = literal.text) :
    ∃ color, parse? text = some color ∧ literal.full = color.fullDigits := by
  rw [parseHash trimmed]
  exact literal.read

theorem byteDigitsLower {byte : UInt8} {c : Char} (listed : c ∈ byteDigits byte) :
    c ∈ Text.hexLetters ∧ c.toLower = c := by
  have lower : ∀ n < 16, (Nat.digitChar n).toLower = Nat.digitChar n := by decide
  have size := byte.toNat_lt
  obtain ⟨n, small, rfl⟩ : ∃ n < 16, c = Nat.digitChar n := by
    simp only [byteDigits, List.mem_cons, List.not_mem_nil, or_false] at listed
    rcases listed with high | low
    · exact ⟨_, by omega, high⟩
    · exact ⟨_, by omega, low⟩
  exact ⟨Text.hexLettersMem.mpr ⟨n, small, rfl⟩, lower n small⟩

def literal (color : Rgba) : HexLiteral where
  digits := byteDigits color.red ++ byteDigits color.green ++ byteDigits color.blue ++
    (if color.alpha = 255 then [] else byteDigits color.alpha)
  hex := by
    have small {byte : UInt8} : ∀ c ∈ byteDigits byte, c.toLower ∈ Text.hexLetters := by
      intro c listed
      obtain ⟨letter, lower⟩ := byteDigitsLower listed
      rwa [lower]
    simp only [List.forall_mem_append]
    refine ⟨⟨⟨small, small⟩, small⟩, ?_⟩
    split
    · simp
    · exact small
  counted := by
    split <;> simp [byteDigits]

theorem toHexText (color : Rgba) : color.toHex.toList = color.literal.text := by
  rw [toHex, String.toList_ofList]
  rfl

theorem literalFull (color : Rgba) : color.literal.full = color.fullDigits := by
  have lower (byte : UInt8) : (byteDigits byte).map Char.toLower = byteDigits byte := by
    rw [List.map_congr_left fun c listed => (byteDigitsLower listed).2, List.map_id']
  have two (byte : UInt8) : (byteDigits byte).length = 2 := rfl
  have solid : byteDigits 255 = ['f', 'f'] := by decide
  rw [HexLiteral.full, literal, fullDigits]
  split
  · next none =>
    simp [HexLiteral.widen, HexLiteral.withAlpha, lower, two, none, solid]
  · simp [HexLiteral.widen, HexLiteral.withAlpha, lower, two]

theorem hexNotationExact (text other : String) (color : Rgba) (hash : text.toList.head? = some '#') :
    ((∃ own, parse? text = some own) ↔ ∃ literal : HexLiteral, Text.trim text.toList = literal.text) ∧
    (∀ literal otherLiteral : HexLiteral, Text.trim text.toList = literal.text →
      Text.trim other.toList = otherLiteral.text →
        ∃ own otherOwn, parse? text = some own ∧ parse? other = some otherOwn ∧
          (own = otherOwn ↔ literal.full = otherLiteral.full)) ∧
    parse? color.toHex = some color := by
  refine ⟨⟨?_, ?_⟩, ?_, ?_⟩
  · rintro ⟨own, read⟩
    obtain ⟨rest, whole⟩ := List.head?_eq_some_iff.mp hash
    have trimmed := whole ▸ Text.trimHash rest
    rw [parseHash trimmed] at read
    obtain ⟨literal, digits⟩ := HexLiteral.ofRead read
    exact ⟨literal, by rw [trimmed, HexLiteral.text, digits]⟩
  · rintro ⟨literal, trimmed⟩
    obtain ⟨own, read, -⟩ := parseLiteral trimmed
    exact ⟨own, read⟩
  · intro literal otherLiteral trimmed otherTrimmed
    obtain ⟨own, read, digits⟩ := parseLiteral trimmed
    obtain ⟨otherOwn, otherRead, otherDigits⟩ := parseLiteral otherTrimmed
    rw [digits, otherDigits]
    exact ⟨own, otherOwn, read, otherRead, congrArg fullDigits, fullDigitsInjective⟩
  · have trimmed : Text.trim color.toHex.toList = color.literal.text := by
      rw [toHexText, color.literal.trimmed]
    obtain ⟨own, read, digits⟩ := parseLiteral trimmed
    rw [read, fullDigitsInjective (digits.symm.trans color.literalFull)]

theorem hexNotationShortForm :
    ∃ own, parse? "#F0a8 " = some own ∧ parse? "#ff00AA88" = some own ∧
      parse? (toHex ⟨0, 0, 0, 128⟩) = some ⟨0, 0, 0, 128⟩ := by
  have short : ∀ c ∈ ['F', '0', 'a', '8'], c.toLower ∈ Text.hexLetters := by
    simp only [List.mem_cons, List.not_mem_nil, or_false, forall_eq_or_imp, forall_eq]
    decide
  have long : ∀ c ∈ ['f', 'f', '0', '0', 'A', 'A', '8', '8'], c.toLower ∈ Text.hexLetters := by
    simp only [List.mem_cons, List.not_mem_nil, or_false, forall_eq_or_imp, forall_eq]
    decide
  obtain ⟨-, same, again⟩ := hexNotationExact "#F0a8 " "#ff00AA88" ⟨0, 0, 0, 128⟩ (by decide)
  obtain ⟨own, otherOwn, read, otherRead, equal⟩ :=
    same ⟨_, short, .inr (.inl rfl)⟩ ⟨_, long, .inr (.inr (.inr rfl))⟩ rfl rfl
  obtain rfl := equal.mpr rfl
  exact ⟨own, read, otherRead, again⟩

end Rgba
end SheetLint
