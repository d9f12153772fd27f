import Mathlib.Data.List.TakeWhile
import SheetLint.Sheet.Piece

/-! What one step of cutting a text can do. `Scanned` lists the kinds of pieces, each with the text it
is cut from and the text that is left; the scanner returns a piece exactly where the list has one.
`Cut` is a whole text, one such step after another with layout in front of each. -/
namespace SheetLint
open Text (byteSize trimEnd trailing)

def plainStart : List Char → Bool
  | '\x7d' :: _ => false
  | '/' :: '*' :: _ => false
  | '/' :: '/' :: _ => false
  | '@' :: _ => false
  | _ => true

def AtEnd (rest : List Char) : Prop := rest = [] ∨ ∃ more, rest = '\x7d' :: more

def AtRuleName.paramsAt (n : AtRuleName) (start : Nat) : Nat :=
  start + 1 + byteSize n.name + byteSize n.blanks

inductive Scanned (before : String) (start : Nat) : List Char → Piece → List Char → Prop where
  | close (rest) : Scanned before start ('\x7d' :: rest) (.close before start) rest
  | comment {body text rest} (closed : Scan.closeComment body = some (text, rest)) :
      Scanned before start ('/' :: '*' :: body)
        (.comment before text false start (start + byteSize text + 4)) rest
  | line (body) :
      Scanned before start ('/' :: '/' :: body)
        (.comment before (body.takeWhile (· != '\n')) true start
          (start + byteSize (body.takeWhile (· != '\n')) + 2))
        (body.dropWhile (· != '\n'))
  | atBlock {cs n text rest} (name : AtRuleName.ofText cs = n)
      (params : Scan.prelude (n.paramsAt start) 0 n.rest = .ok (text, '\x7b' :: rest)) :
      Scanned before start ('@' :: cs)
        (.head (n.data before text true true) start (n.paramsAt start + byteSize text)) rest
  | atEnded {cs n text rest} (name : AtRuleName.ofText cs = n)
      (params : Scan.prelude (n.paramsAt start) 0 n.rest = .ok (text, ';' :: rest)) :
      Scanned before start ('@' :: cs)
        (.leaf (n.data before text false true) start (n.paramsAt start + byteSize text + 1)) rest
  | atOpen {cs n text rest} (name : AtRuleName.ofText cs = n)
      (params : Scan.prelude (n.paramsAt start) 0 n.rest = .ok (text, rest)) (stop : AtEnd rest) :
      Scanned before start ('@' :: cs)
        (.leaf (n.data before text false false) start (n.paramsAt start + byteSize (trimEnd text)))
        (trailing text ++ rest)
  | rule {cs text rest} (plain : plainStart cs = true)
      (head : Scan.prelude start 0 cs = .ok (text, '\x7b' :: rest)) :
      Scanned before start cs
        (.head
          { kind := .rule (.ofList (trimEnd text))
            raws := { before, between := .ofList (trailing text) } }
          start (start + byteSize text))
        rest
  | ended {cs text rest d} (plain : plainStart cs = true)
      (body : Scan.prelude start 0 cs = .ok (text, ';' :: rest))
      (parts : DeclarationText.ofText? text = some d) :
      Scanned before start cs (.leaf (d.data before true) start (start + byteSize text + 1)) rest
  | opened {cs text rest d} (plain : plainStart cs = true)
      (body : Scan.prelude start 0 cs = .ok (text, rest)) (stop : AtEnd rest)
      (parts : DeclarationText.ofText? text = some d) :
      Scanned before start cs (.leaf (d.data before false) start (start + byteSize d.core))
        (d.after ++ rest)

theorem plainOther {cs : List Char} (close : ∀ rest, cs ≠ '\x7d' :: rest)
    (comment : ∀ rest, cs ≠ '/' :: '*' :: rest) (line : ∀ rest, cs ≠ '/' :: '/' :: rest)
    (named : ∀ rest, cs ≠ '@' :: rest) : plainStart cs = true := by
  unfold plainStart
  split
  · exact absurd rfl (close _)
  · exact absurd rfl (comment _)
  · exact absurd rfl (line _)
  · exact absurd rfl (named _)
  · rfl

theorem scanPlain {cs : List Char} (plain : plainStart cs = true) (before : String) (start : Nat) :
    Piece.scan before start cs = Piece.statement before start cs := by
  unfold Piece.scan
  split <;> first | rfl | (exfalso; revert plain; simp [plainStart])

theorem atEndOther {offset depth : Nat} {cs text rest : List Char}
    (ok : Scan.prelude offset depth cs = .ok (text, rest)) (block : ∀ more, rest ≠ '\x7b' :: more)
    (ended : ∀ more, rest ≠ ';' :: more) : AtEnd rest := by
  cases rest with
  | nil => exact .inl rfl
  | cons c more =>
    have ends := (Scan.preludeWhole ok).2 c rfl
    simp only [Scan.endsStatement, Bool.or_eq_true, beq_iff_eq] at ends
    rcases ends with (rfl | rfl) | rfl
    · exact absurd rfl (block more)
    · exact absurd rfl (ended more)
    · exact .inr ⟨more, rfl⟩

variable {before : String} {start : Nat}

theorem statementDeclaration {cs text tail : List Char}
    (body : Scan.prelude start 0 cs = .ok (text, tail)) (block : ∀ more, tail ≠ '\x7b' :: more) :
    Piece.statement before start cs = Piece.declaration before start text tail := by
  unfold Piece.statement
  rw [body]
  split
  · next same => cases same
  · next more same =>
    cases same
    exact absurd rfl (block more)
  · next same =>
    cases same
    rfl

theorem declarationScanned {cs text tail : List Char} {piece : Piece} {rest : List Char}
    (plain : plainStart cs = true) (body : Scan.prelude start 0 cs = .ok (text, tail))
    (block : ∀ more, tail ≠ '\x7b' :: more)
    (ok : Piece.declaration before start text tail = .ok (piece, rest)) :
    Scanned before start cs piece rest := by
  unfold Piece.declaration at ok
  split at ok
  · cases ok
  · next d parts =>
    split at ok
    · cases ok
      exact .ended plain body parts
    · next ended =>
      cases ok
      exact .opened plain body (atEndOther body block ended) parts

theorem statementScanned {cs rest : List Char} {piece : Piece} (plain : plainStart cs = true)
    (ok : Piece.statement before start cs = .ok (piece, rest)) :
    Scanned before start cs piece rest := by
  unfold Piece.statement at ok
  split at ok
  · cases ok
  · next text more head =>
    cases ok
    exact .rule plain head
  · next text tail block body =>
    exact declarationScanned plain body (fun more same => block more same) ok

theorem atRuleScanned {cs rest : List Char} {piece : Piece}
    (ok : Piece.atRule before start cs = .ok (piece, rest)) :
    Scanned before start ('@' :: cs) piece rest := by
  unfold Piece.atRule at ok
  dsimp only at ok
  split at ok
  · cases ok
  · next text more params =>
    cases ok
    exact .atBlock rfl params
  · next text more params =>
    cases ok
    exact .atEnded rfl params
  · next text tail block ended params =>
    cases ok
    exact .atOpen rfl params (atEndOther params block ended)

theorem scanSound {cs rest : List Char} {piece : Piece}
    (ok : Piece.scan before start cs = .ok (piece, rest)) : Scanned before start cs piece rest := by
  unfold Piece.scan at ok
  split at ok
  · cases ok
    exact .close _
  · split at ok
    · cases ok
    · next closed =>
      cases ok
      exact .comment closed
  · cases ok
    exact .line _
  · exact atRuleScanned ok
  · next close comment line named =>
    exact statementScanned (plainOther close comment line named) ok

theorem scanComplete {cs rest : List Char} {piece : Piece}
    (scanned : Scanned before start cs piece rest) :
    Piece.scan before start cs = .ok (piece, rest) := by
  cases scanned with
  | close rest => rfl
  | comment closed => simp only [Piece.scan, closed]
  | line body => rfl
  | atBlock name params =>
    subst name
    rw [AtRuleName.paramsAt] at params ⊢
    simp only [Piece.scan, Piece.atRule, params]
  | atEnded name params =>
    subst name
    rw [AtRuleName.paramsAt] at params ⊢
    simp only [Piece.scan, Piece.atRule, params]
  | atOpen name params stop =>
    subst name
    rw [AtRuleName.paramsAt] at params ⊢
    rcases stop with rfl | ⟨more, rfl⟩
    · simp only [Piece.scan, Piece.atRule, params]
    · simp only [Piece.scan, Piece.atRule, params]
      rfl
  | rule plain head =>
    rw [scanPlain plain, Piece.statement]
    simp only [head]
  | ended plain body parts =>
    rw [scanPlain plain, statementDeclaration body (by simp), Piece.declaration, parts]
    rfl
  | opened plain body stop parts =>
    rcases stop with rfl | ⟨more, rfl⟩
    · rw [scanPlain plain, statementDeclaration body (by simp), Piece.declaration, parts]
    · rw [scanPlain plain, statementDeclaration body (by simp), Piece.declaration, parts]
      rfl

/-! ## Whole texts -/

def Layout (cs : List Char) : Prop := ∀ c ∈ cs, isLayout c = true

/- The text at byte `offset` is in these pieces and the layout `after` them. -/
inductive Cut : Nat → List Char → List Piece → String → Prop where
  | nil {offset layout} (blank : Layout layout) : Cut offset layout [] (.ofList layout)
  | cons {offset layout c body piece rest ps after} (blank : Layout layout)
      (visible : isLayout c = false)
      (scanned : Scanned (.ofList layout) (offset + byteSize layout) (c :: body) piece rest)
      (tail : Cut piece.next rest ps after) :
      Cut offset (layout ++ c :: body) (piece :: ps) after

theorem layoutTaken (cs : List Char) : Layout (cs.takeWhile isLayout) := by
  intro c inside
  exact List.mem_takeWhile_imp inside

theorem layoutDropped {cs body : List Char} {c : Char} (drop : cs.dropWhile isLayout = c :: body) :
    cs = cs.takeWhile isLayout ++ c :: body ∧ isLayout c = false := by
  constructor
  · rw [← drop, List.takeWhile_append_dropWhile]
  · have visible := List.head?_dropWhile_not isLayout cs
    rw [drop] at visible
    exact visible

theorem takeLayout {layout : List Char} {c : Char} (blank : Layout layout)
    (visible : isLayout c = false) (body : List Char) :
    (layout ++ c :: body).takeWhile isLayout = layout ∧
      (layout ++ c :: body).dropWhile isLayout = c :: body := by
  constructor
  · rw [List.takeWhile_append_of_pos blank, List.takeWhile_cons, visible]
    simp
  · rw [List.dropWhile_append_of_pos blank, List.dropWhile_cons, visible]
    rfl

theorem piecesEnd {layout : List Char} (blank : Layout layout) (offset : Nat) :
    pieces offset layout = ([], .finished (.ofList layout)) := by
  have drop : layout.dropWhile isLayout = [] := List.dropWhile_eq_nil_iff.mpr blank
  have take : layout.takeWhile isLayout = layout := List.takeWhile_eq_self_iff.mpr blank
  rw [pieces]
  split
  · rw [take]
  · next some => cases drop.symm.trans some

theorem piecesStep {layout body : List Char} {c : Char} (blank : Layout layout)
    (visible : isLayout c = false) (offset : Nat) :
    pieces offset (layout ++ c :: body) =
      match Piece.scan (.ofList layout) (offset + byteSize layout) (c :: body) with
      | .error fault => ([], .failed fault)
      | .ok (piece, rest) =>
        (piece :: (pieces piece.next rest).1, (pieces piece.next rest).2) := by
  obtain ⟨take, drop⟩ := takeLayout blank visible body
  rw [pieces]
  split
  · next none => cases drop.symm.trans none
  · next d rest some =>
    obtain ⟨rfl, rfl⟩ := List.cons.inj (some.symm.trans drop)
    rw [take]
    split
    · next failed => rw [failed]
    · next ok => rw [ok]

theorem cutSound {offset : Nat} {cs : List Char} {ps : List Piece} {after : String}
    (done : pieces offset cs = (ps, .finished after)) : Cut offset cs ps after := by
  match split : cs.dropWhile isLayout with
  | [] =>
    have blank : Layout cs := List.dropWhile_eq_nil_iff.mp split
    cases (piecesEnd blank offset).symm.trans done
    exact .nil blank
  | c :: body =>
    obtain ⟨whole, visible⟩ := layoutDropped split
    have blank := layoutTaken cs
    generalize cs.takeWhile isLayout = layout at whole blank
    rw [whole, piecesStep blank visible] at done
    match step : Piece.scan (.ofList layout) (offset + byteSize layout) (c :: body) with
    | .error fault =>
      rw [step] at done
      cases done
    | .ok (piece, rest) =>
      rw [step, Prod.mk.injEq] at done
      obtain ⟨rfl, last⟩ := done
      have shorter : rest.length < cs.length := by
        have less : rest.length < (c :: body).length := Piece.scanLength step
        rw [whole, List.length_append]
        omega
      rw [whole]
      exact .cons blank visible (scanSound step) (cutSound (Prod.ext rfl last))
termination_by cs.length

theorem cutComplete {offset : Nat} {cs : List Char} {ps : List Piece} {after : String}
    (cut : Cut offset cs ps after) : pieces offset cs = (ps, .finished after) := by
  induction cut with
  | nil blank => exact piecesEnd blank _
  | cons blank visible scanned tail ih =>
    rw [piecesStep blank visible, scanComplete scanned]
    simp only [ih]

end SheetLint
