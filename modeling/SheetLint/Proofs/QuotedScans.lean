import Mathlib.Data.List.Infix
import SheetLint.Sheet.Prelude
import SheetLint.Value.Parse

/-! Strings and comments are scanned twice, by the reader of sheets and by the reader of values. The first ends a
string at the first quote that is not escaped and a comment at the first `*/`. The second finds the same end of
a string unless a line feed is escaped before it, and no end of a comment at all. -/
namespace SheetLint
open Text (byteSize)

/-! ## Escapes -/

namespace Text

/- Whether a text escapes what follows it: it ends in a backslash that is not escaped itself. -/
def escapes (front : List Char) : Bool := front.foldl (fun escaped c => !escaped && c == '\\') false

def Stands (escaped : Bool) (c : Char) (text : List Char) : Prop :=
  ∃ front back, text = front ++ c :: back ∧ escapes front = escaped

variable {escaped : Bool} {c d : Char} {text : List Char}

theorem standsPair :
    Stands escaped d ('\\' :: c :: text) ↔
      escaped = false ∧ d = '\\' ∨ escaped = true ∧ c = d ∨ Stands escaped d text := by
  have after (front : List Char) : escapes ('\\' :: c :: front) = escapes front := by simp [escapes]
  constructor
  · rintro ⟨front, back, whole, state⟩
    match front with
    | [] => exact .inl ⟨state.symm, (List.cons.inj whole).1.symm⟩
    | [a] =>
      obtain ⟨rfl, rest⟩ := List.cons.inj whole
      exact .inr (.inl ⟨state.symm, (List.cons.inj rest).1⟩)
    | a :: b :: front =>
      obtain ⟨rfl, rest⟩ := List.cons.inj whole
      obtain ⟨rfl, tail⟩ := List.cons.inj rest
      exact .inr (.inr ⟨front, back, tail, by rwa [after] at state⟩)
  · rintro (⟨rfl, rfl⟩ | ⟨rfl, rfl⟩ | ⟨front, back, rfl, state⟩)
    · exact ⟨[], c :: text, rfl, rfl⟩
    · exact ⟨['\\'], text, rfl, rfl⟩
    · exact ⟨'\\' :: c :: front, back, rfl, by rwa [after]⟩

theorem standsOther (plain : c ≠ '\\') :
    Stands escaped d (c :: text) ↔ escaped = false ∧ c = d ∨ Stands escaped d text := by
  have after (front : List Char) : escapes (c :: front) = escapes front := by
    simp [escapes, beq_eq_false_iff_ne.mpr plain]
  constructor
  · rintro ⟨front, back, whole, state⟩
    cases front with
    | nil => exact .inl ⟨state.symm, (List.cons.inj whole).1⟩
    | cons a front =>
      obtain ⟨rfl, rest⟩ := List.cons.inj whole
      exact .inr ⟨front, back, rest, by rwa [after] at state⟩
  · rintro (⟨rfl, rfl⟩ | ⟨front, back, rfl, state⟩)
    · exact ⟨[], text, rfl, rfl⟩
    · exact ⟨c :: front, back, rfl, by rwa [after]⟩

theorem standsNowhere : ¬Stands escaped d [] := by
  rintro ⟨front, back, whole, -⟩
  simp at whole

theorem standsLone (mark : d ≠ '\\') : ¬Stands escaped d ['\\'] := by
  rintro ⟨front, back, whole, -⟩
  cases front with
  | nil => exact mark (List.cons.inj whole).1.symm
  | cons a front => simp at whole

end Text
open Text (Stands)

/-! ## Ends of strings and comments -/

variable {quote : Char} {cs : List Char}

theorem quoteMissing (mark : quote ≠ '\\') : Scan.closeQuote quote cs = none ↔ ¬Stands false quote cs := by
  fun_induction Scan.closeQuote quote cs with
  | case1 => simp [Text.standsNowhere]
  | case2 c cs ih => simp [ih, Text.standsPair, mark]
  | case3 c cs lone same =>
    rw [beq_iff_eq] at same
    subst same
    simp [Text.standsOther mark]
  | case4 c cs lone other ih =>
    rw [beq_iff_eq] at other
    rw [Option.map_eq_none_iff, ih]
    by_cases escape : c = '\\'
    · subst escape
      cases cs with
      | nil => simp [Text.standsNowhere, Text.standsLone mark]
      | cons d ds => exact absurd rfl (lone d ds rfl)
    · simp [Text.standsOther escape, other]

theorem commentMissing : Scan.closeComment cs = none ↔ ¬['*', '/'] <:+: cs := by
  fun_induction Scan.closeComment cs with
  | case1 => simp
  | case2 cs => simp [List.infix_cons_iff]
  | case3 c cs lone ih =>
    rw [Option.map_eq_none_iff, ih, List.infix_cons_iff, not_or]
    refine ⟨fun none => ⟨?_, none⟩, And.right⟩
    rintro ⟨back, whole⟩
    obtain ⟨rfl, rest⟩ := List.cons.inj whole
    exact lone back rfl rest.symm

theorem closeStringExact (mark : quote ≠ '\\') {p : List Char × List Char} :
    Lexeme.closeString quote cs = some p ↔ Scan.closeQuote quote cs = some p ∧ ¬Stands true '\n' p.1 := by
  fun_induction Lexeme.closeString quote cs generalizing p with
  | case1 => simp [Scan.closeQuote]
  | case2 c cs feed =>
    rw [beq_iff_eq] at feed
    subst feed
    simp only [Scan.closeQuote, Option.map_eq_some_iff, false_iff, reduceCtorEq]
    rintro ⟨⟨q, -, rfl⟩, free⟩
    exact free (Text.standsPair.mpr (.inr (.inl ⟨rfl, rfl⟩)))
  | case3 c cs other ih =>
    rw [beq_iff_eq] at other
    have kept (text : List Char) : ¬Stands true '\n' ('\\' :: c :: text) ↔ ¬Stands true '\n' text := by
      simp [Text.standsPair, other]
    simp only [Scan.closeQuote, Option.map_eq_some_iff, ih]
    constructor
    · rintro ⟨q, ⟨closed, free⟩, rfl⟩
      exact ⟨⟨q, closed, rfl⟩, (kept _).mpr free⟩
    · rintro ⟨⟨q, closed, rfl⟩, free⟩
      exact ⟨q, ⟨closed, (kept _).mp free⟩, rfl⟩
  | case4 c cs lone same =>
    rw [beq_iff_eq] at same
    subst same
    rw [Scan.closeQuote.eq_3 _ _ _ lone, if_pos (beq_self_eq_true c)]
    refine ⟨fun found => ⟨found, ?_⟩, And.left⟩
    cases found
    simp [Text.standsOther mark, Text.standsNowhere]
  | case5 c cs lone other ih =>
    rw [Scan.closeQuote.eq_3 _ _ _ lone, if_neg other]
    have kept {q : List Char × List Char} (closed : Scan.closeQuote quote cs = some q) :
        ¬Stands true '\n' (c :: q.1) ↔ ¬Stands true '\n' q.1 := by
      have plain : c ≠ '\\' := by
        rintro rfl
        cases cs with
        | nil => cases closed
        | cons d ds => exact lone d ds rfl rfl
      simp [Text.standsOther plain]
    simp only [Option.map_eq_some_iff, ih]
    constructor
    · rintro ⟨q, ⟨closed, free⟩, rfl⟩
      exact ⟨⟨q, closed, rfl⟩, (kept closed).mpr free⟩
    · rintro ⟨⟨q, closed, rfl⟩, free⟩
      exact ⟨q, ⟨closed, (kept closed).mp free⟩, rfl⟩

/-! ## The first lexeme -/

def Lexeme.Leads (text : List Char) (kind : LexemeKind) (stop : Nat) : Prop :=
  ∃ lexeme, (lex 0 text).head? = some lexeme ∧ lexeme.kind = kind ∧ lexeme.range = ⟨0, stop⟩

variable {rest : List Char} {stop : Nat}

theorem quoteCases (isQuote : Lexeme.isQuote quote = true) : quote = '"' ∨ quote = '\'' := by
  simpa [Lexeme.isQuote] using isQuote

theorem lexString (isQuote : Lexeme.isQuote quote = true) :
    (Lexeme.lex 0 (quote :: rest)).head? =
      match Lexeme.closeString quote rest with
      | some p => some ⟨.string true, quote :: p.1, 0⟩
      | none => some ⟨.string false, quote :: rest, 0⟩ := by
  rw [Lexeme.lex, List.head?_cons]
  rcases quoteCases isQuote with rfl | rfl <;>
    cases closed : Lexeme.closeString _ rest <;>
    simp [Lexeme.first, Lexeme.isDividerChar, Lexeme.isQuote, Text.isAsciiBlank, closed]

theorem stringLeads (isQuote : Lexeme.isQuote quote = true) :
    Lexeme.Leads (quote :: rest) (.string true) stop ↔
      ∃ p, Lexeme.closeString quote rest = some p ∧ byteSize (quote :: p.1) = stop := by
  rw [Lexeme.Leads, lexString isQuote]
  cases Lexeme.closeString quote rest <;> simp [Lexeme.range, Lexeme.stop]

theorem unclosedLeads (isQuote : Lexeme.isQuote quote = true) :
    Lexeme.Leads (quote :: rest) (.string false) stop ↔
      Lexeme.closeString quote rest = none ∧ byteSize (quote :: rest) = stop := by
  rw [Lexeme.Leads, lexString isQuote]
  cases Lexeme.closeString quote rest <;> simp [Lexeme.range, Lexeme.stop]

theorem commentWhole (rest : List Char) :
    parseValue (.ofList ('/' :: '*' :: rest)) =
      [.leaf (.comment false) (.ofList rest) ⟨0, byteSize ('/' :: '*' :: rest)⟩] := by
  have lexed : Lexeme.lex 0 ('/' :: '*' :: rest) = [⟨.comment false, '/' :: '*' :: rest, 0⟩] := by
    rw [Lexeme.lex]
    simp [Lexeme.first, Lexeme.lex]
  rw [parseValue, String.toList_ofList, lexed]
  simp [valueItems, Lexeme.toItem, Lexeme.uncomment, Lexeme.range, Lexeme.stop, nestCalls, closeAll,
    ValueNode.absorbSpaces]

/-! ## Where the scans agree -/

def StringsAgree (quote : Char) (rest : List Char) : Prop :=
  (∀ stop, (∃ p, Scan.closeQuote quote rest = some p ∧ byteSize (quote :: p.1) = stop) ↔
    Lexeme.Leads (quote :: rest) (.string true) stop) ∧
  (Scan.closeQuote quote rest = none ↔ ∃ stop, Lexeme.Leads (quote :: rest) (.string false) stop)

def CommentsAgree (rest : List Char) : Prop :=
  let first := (parseValue (.ofList ('/' :: '*' :: rest))).head?
  (∀ stop, (∃ p, Scan.closeComment rest = some p ∧ byteSize (Scan.comment p.1) = stop) ↔
    ∃ text, first = some (.leaf (.comment true) text ⟨0, stop⟩)) ∧
  (Scan.closeComment rest = none ↔ ∃ text stop, first = some (.leaf (.comment false) text ⟨0, stop⟩))

theorem stringsAgreeExactly (isQuote : Lexeme.isQuote quote = true) :
    StringsAgree quote rest ↔ ∀ p, Scan.closeQuote quote rest = some p → ¬Stands true '\n' p.1 := by
  have mark : quote ≠ '\\' := by rcases quoteCases isQuote with rfl | rfl <;> decide
  simp only [StringsAgree, stringLeads isQuote, unclosedLeads isQuote]
  constructor
  · rintro ⟨ends, -⟩ p closed
    obtain ⟨q, found, -⟩ := (ends _).mp ⟨p, closed, rfl⟩
    obtain ⟨again, free⟩ := (closeStringExact mark).mp found
    rwa [Option.some.inj (closed.symm.trans again)]
  · intro free
    have same : Lexeme.closeString quote rest = Scan.closeQuote quote rest := by
      apply Option.ext
      intro p
      rw [closeStringExact mark]
      exact ⟨And.left, fun closed => ⟨closed, free p closed⟩⟩
    rw [same]
    exact ⟨fun stop => .rfl, by simp⟩

theorem commentsAgreeExactly : CommentsAgree rest ↔ Scan.closeComment rest = none := by
  simp only [CommentsAgree, commentWhole, List.head?_cons]
  constructor
  · rintro ⟨-, missing⟩
    exact missing.mpr ⟨_, _, rfl⟩
  · intro missing
    simp [missing]

theorem feedLeads (isQuote : Lexeme.isQuote quote = true) {p : List Char × List Char}
    (closed : Scan.closeQuote quote rest = some p) (feed : Stands true '\n' p.1) :
    Lexeme.Leads (quote :: rest) (.string false) (byteSize (quote :: rest)) := by
  have mark : quote ≠ '\\' := by rcases quoteCases isQuote with rfl | rfl <;> decide
  refine (unclosedLeads isQuote).mpr ⟨?_, rfl⟩
  cases found : Lexeme.closeString quote rest with
  | none => rfl
  | some q =>
    obtain ⟨again, free⟩ := (closeStringExact mark).mp found
    rw [Option.some.inj (closed.symm.trans again)] at feed
    exact absurd feed free

theorem scansAgreeExactly (isQuote : Lexeme.isQuote quote = true) (rest : List Char) :
    (StringsAgree quote rest ↔ ∀ p, Scan.closeQuote quote rest = some p → ¬Stands true '\n' p.1) ∧
    (¬StringsAgree quote rest → Lexeme.Leads (quote :: rest) (.string false) (byteSize (quote :: rest))) ∧
    (CommentsAgree rest ↔ Scan.closeComment rest = none) ∧
    parseValue (.ofList ('/' :: '*' :: rest)) =
      [.leaf (.comment false) (.ofList rest) ⟨0, byteSize ('/' :: '*' :: rest)⟩] := by
  refine ⟨stringsAgreeExactly isQuote, ?_, commentsAgreeExactly, commentWhole rest⟩
  intro differ
  rw [stringsAgreeExactly isQuote] at differ
  simp only [not_forall, not_not] at differ
  obtain ⟨p, closed, feed⟩ := differ
  exact feedLeads isQuote closed feed

theorem scansAgreeEscapedQuote :
    Lexeme.isQuote '\'' = true ∧ StringsAgree '\'' "a\\'é' c".toList := by
  refine ⟨rfl, (scansAgreeExactly rfl _).1.mpr fun p closed => ?_⟩
  have inner : Scan.closeQuote '\'' "a\\'é' c".toList = some ("a\\'é'".toList, " c".toList) := by decide
  rw [← Option.some.inj (inner.symm.trans closed)]
  rintro ⟨front, back, whole, -⟩
  have inside : '\n' ∈ ("a\\'é'".toList, " c".toList).1 := by
    rw [whole]
    simp
  revert inside
  decide

theorem closedCommentOverlooked :
    ¬CommentsAgree " note */ red".toList ∧ ¬StringsAgree '\'' "a\\\nb' c".toList := by
  constructor
  · rw [commentsAgreeExactly]
    decide
  · rw [stringsAgreeExactly rfl]
    intro free
    exact free ("a\\\nb'".toList, " c".toList) (by decide) ⟨"a\\".toList, "b'".toList, by decide, by decide⟩

end SheetLint
