import SheetLint.Sheet.Node
import SheetLint.Sheet.Prelude

/-!
The pieces of a style sheet: what the source is cut into before it is nested. A piece is a node without
a body, the head of a block through its `{`, or a closing brace, each with the layout in front of it.
-/
namespace SheetLint
open Text (byteSize trimEnd trailing trimStart leading isAsciiBlank)

inductive Piece where
  | leaf (data : NodeData) (start stop : Nat)
  | head (data : NodeData) (start brace : Nat)
  | close (before : String) (brace : Nat)
  deriving DecidableEq, Repr

def Piece.next : Piece → Nat
  | .leaf _ _ stop => stop
  | .head _ _ brace => brace + 1
  | .close _ brace => brace + 1

structure DeclarationText where
  prop : List Char
  between : List Char
  value : List Char
  important : List Char
  after : List Char
  deriving DecidableEq, Repr

/-- The value and the `!important` flag at its end, which is empty if there is none. The flag is in any
case, and may have blanks before and behind the exclamation mark. -/
def splitImportant (value : List Char) : List Char × List Char :=
  match Text.splitLast? '!' value with
  | some (head, tail) =>
    if Text.sameIgnoringCase (Text.trim tail) "important".toList then
      (trimEnd head, trailing head ++ '!' :: tail)
    else (value, [])
  | none => (value, [])

def DeclarationText.ofText? (text : List Char) : Option DeclarationText :=
  (Text.splitFirst? ':' text).map fun (name, rest) =>
    let written := trimStart rest
    let (value, important) := splitImportant (trimEnd written)
    { prop := trimEnd name
      between := trailing name ++ ':' :: leading rest
      value, important
      after := trailing written }

namespace DeclarationText

def core (d : DeclarationText) : List Char := d.prop ++ d.between ++ d.value ++ d.important

def data (d : DeclarationText) (before : String) (terminated : Bool) : NodeData where
  kind := .declaration (.ofList d.prop) (.ofList d.value) (!d.important.isEmpty)
  raws :=
    { before
      between := .ofList d.between
      after := if terminated then .ofList d.after else ""
      important := .ofList d.important
      semicolon := terminated }

end DeclarationText

def endsName (c : Char) : Bool :=
  isAsciiBlank c || c == '\x7b' || c == '\x7d' || c == ';' || c == '(' || c == '"' || c == '\''

structure AtRuleName where
  name : List Char
  blanks : List Char
  rest : List Char
  deriving DecidableEq, Repr

def AtRuleName.ofText (cs : List Char) : AtRuleName :=
  let after := cs.dropWhile fun c => !endsName c
  { name := cs.takeWhile fun c => !endsName c
    blanks := after.takeWhile isAsciiBlank
    rest := after.dropWhile isAsciiBlank }

def AtRuleName.data (n : AtRuleName) (before : String) (text : List Char) (block ended : Bool) :
    NodeData where
  kind := .atRule (.ofList n.name) (.ofList (trimEnd text)) block
  raws :=
    { before
      between := if ended then .ofList (trailing text) else ""
      afterName := .ofList n.blanks
      semicolon := ended && !block }

namespace Piece

def comment (before : String) (text : List Char) (inline : Bool) (start stop : Nat) : Piece :=
  .leaf ⟨.comment (.ofList text) inline, { before }, none⟩ start stop

/-- A declaration with its semicolon, or one that ends where its block or the text does. The blanks
behind the latter belong to what follows. -/
def declaration (before : String) (start : Nat) (text rest : List Char) :
    Except Fault (Piece × List Char) :=
  match DeclarationText.ofText? text with
  | none => .error ⟨.missingColon, start⟩
  | some d =>
    match rest with
    | ';' :: rest => .ok (.leaf (d.data before true) start (start + byteSize text + 1), rest)
    | rest => .ok (.leaf (d.data before false) start (start + byteSize d.core), d.after ++ rest)

def statement (before : String) (start : Nat) (cs : List Char) : Except Fault (Piece × List Char) :=
  match Scan.prelude start 0 cs with
  | .error fault => .error fault
  | .ok (text, '\x7b' :: rest) =>
    let data : NodeData :=
      { kind := .rule (.ofList (trimEnd text))
        raws := { before, between := .ofList (trailing text) } }
    .ok (.head data start (start + byteSize text), rest)
  | .ok (text, rest) => declaration before start text rest

def atRule (before : String) (start : Nat) (cs : List Char) : Except Fault (Piece × List Char) :=
  let n := AtRuleName.ofText cs
  let params := start + 1 + byteSize n.name + byteSize n.blanks
  match Scan.prelude params 0 n.rest with
  | .error fault => .error fault
  | .ok (text, '\x7b' :: rest) =>
    .ok (.head (n.data before text true true) start (params + byteSize text), rest)
  | .ok (text, ';' :: rest) =>
    .ok (.leaf (n.data before text false true) start (params + byteSize text + 1), rest)
  | .ok (text, rest) =>
    .ok (.leaf (n.data before text false false) start (params + byteSize (trimEnd text)),
      trailing text ++ rest)

def scan (before : String) (start : Nat) (cs : List Char) : Except Fault (Piece × List Char) :=
  match cs with
  | '\x7d' :: rest => .ok (.close before start, rest)
  | '/' :: '*' :: rest =>
    match Scan.closeComment rest with
    | none => .error ⟨.unclosedComment, start⟩
    | some (text, after) => .ok (comment before text false start (start + byteSize text + 4), after)
  | '/' :: '/' :: rest =>
    let text := rest.takeWhile (· != '\n')
    .ok (comment before text true start (start + byteSize text + 2), rest.dropWhile (· != '\n'))
  | '@' :: rest => atRule before start rest
  | cs => statement before start cs

theorem declarationLength {before : String} {start : Nat} {text rest : List Char}
    {r : Piece × List Char} (h : declaration before start text rest = .ok r) :
    r.2.length < (text ++ rest).length := by
  unfold declaration at h
  split at h
  · cases h
  next d hd =>
    obtain ⟨p, hp, rfl⟩ := Option.map_eq_some_iff.1 hd
    have whole := congrArg List.length (Text.splitFirstWhole hp)
    have blanks := Text.trailingLength (trimStart p.2)
    have written := Text.trimStartLength p.2
    split at h <;> cases h <;> simp at whole ⊢ <;> omega

theorem statementLength {before : String} {start : Nat} {cs : List Char} {r : Piece × List Char}
    (h : statement before start cs = .ok r) : r.2.length < cs.length := by
  unfold statement at h
  split at h
  · cases h
  next text rest hp =>
    cases h
    rw [(Scan.preludeWhole hp).1]
    simp; omega
  next text rest _ hp =>
    rw [(Scan.preludeWhole hp).1]
    exact declarationLength h

theorem atRuleLength {before : String} {start : Nat} {cs : List Char} {r : Piece × List Char}
    (h : atRule before start cs = .ok r) : r.2.length ≤ cs.length := by
  have named : (AtRuleName.ofText cs).rest.length ≤ cs.length :=
    Nat.le_trans (List.dropWhile_sublist _).length_le (List.dropWhile_sublist _).length_le
  unfold atRule at h
  simp only at h
  split at h
  · cases h
  next text rest hp =>
    have whole := congrArg List.length (Scan.preludeWhole hp).1
    cases h
    simp at whole ⊢; omega
  next text rest hp =>
    have whole := congrArg List.length (Scan.preludeWhole hp).1
    cases h
    simp at whole ⊢; omega
  next text rest _ _ hp =>
    have whole := congrArg List.length (Scan.preludeWhole hp).1
    have blanks := Text.trailingLength text
    cases h
    simp at whole ⊢; omega

theorem scanLength {before : String} {start : Nat} {cs : List Char} {r : Piece × List Char}
    (h : scan before start cs = .ok r) : r.2.length < cs.length := by
  unfold scan at h
  split at h
  · cases h; simp
  next rest =>
    split at h
    · cases h
    next text after hc =>
      have := Scan.closeCommentLength hc
      cases h
      simp at this ⊢; omega
  next rest =>
    cases h
    have := (List.dropWhile_sublist (l := rest) (· != '\n')).length_le
    simp; omega
  next rest =>
    have := atRuleLength h
    simp; omega
  · exact statementLength h

end Piece

inductive Ending where
  | finished (after : String)
  | failed (fault : Fault)
  deriving DecidableEq, Repr

def isLayout (c : Char) : Bool := isAsciiBlank c || c == ';'

def pieces (offset : Nat) (cs : List Char) : List Piece × Ending :=
  let before := String.ofList (cs.takeWhile isLayout)
  let start := offset + byteSize (cs.takeWhile isLayout)
  match _hb : cs.dropWhile isLayout with
  | [] => ([], .finished before)
  | c :: body =>
    match _h : Piece.scan before start (c :: body) with
    | .error fault => ([], .failed fault)
    | .ok (piece, rest) =>
      let (more, ending) := pieces piece.next rest
      (piece :: more, ending)
termination_by cs.length
decreasing_by
  have shorter := Piece.scanLength _h
  have layout := (List.dropWhile_sublist (l := cs) isLayout).length_le
  rw [_hb] at layout
  simp at shorter layout ⊢
  omega

end SheetLint
