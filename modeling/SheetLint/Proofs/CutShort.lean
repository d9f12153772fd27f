import SheetLint.Proofs.ReadAhead

/-! Texts that are cut on the way. `Passed` is the reader between two pieces, with the pieces behind it and the text
that is left. A closing brace ends whatever is open in front of it, so the text before one is in the same pieces
when nothing follows it. -/
namespace SheetLint
open Text (byteSize isBlank)
open Scan (State)

/- From byte `offset` on these pieces are read, and `last` is left at byte `place`. -/
inductive Passed : Nat → List Char → List Piece → Nat → List Char → Prop where
  | nil {offset cs} : Passed offset cs [] offset cs
  | cons {offset layout c body piece rest ps place last} (blank : Layout layout)
      (visible : isLayout c = false)
      (scanned : Scanned (.ofList layout) (offset + byteSize layout) (c :: body) piece rest)
      (tail : Passed piece.next rest ps place last) :
      Passed offset (layout ++ c :: body) (piece :: ps) place last

variable {before : String} {start offset place depth : Nat} {cs text rest front back more : List Char} {piece : Piece}
  {ps qs : List Piece} {ending : Ending}

theorem layoutCases (cs : List Char) :
    Layout cs ∨ ∃ layout c body, cs = layout ++ c :: body ∧ Layout layout ∧ isLayout c = false := by
  match split : cs.dropWhile isLayout with
  | [] => exact .inl (List.dropWhile_eq_nil_iff.mp split)
  | c :: body =>
    obtain ⟨whole, visible⟩ := layoutDropped split
    exact .inr ⟨_, c, body, whole, layoutTaken cs, visible⟩

theorem piecesFirst (run : pieces offset cs = (piece :: ps, ending)) :
    ∃ layout c body rest, cs = layout ++ c :: body ∧ Layout layout ∧ isLayout c = false ∧
      Scanned (.ofList layout) (offset + byteSize layout) (c :: body) piece rest ∧
      pieces piece.next rest = (ps, ending) := by
  rcases layoutCases cs with blank | ⟨layout, c, body, rfl, blank, visible⟩
  · cases (piecesEnd blank offset).symm.trans run
  · rw [piecesStep blank visible] at run
    split at run
    · cases run
    · next first rest step =>
      cases run
      exact ⟨layout, c, body, rest, rfl, blank, visible, scanSound step, rfl⟩

theorem piecesPassed (run : pieces offset cs = (ps ++ qs, ending)) :
    ∃ place rest, Passed offset cs ps place rest ∧ pieces place rest = (qs, ending) := by
  induction ps generalizing offset cs with
  | nil => exact ⟨offset, cs, .nil, run⟩
  | cons piece ps ih =>
    obtain ⟨layout, c, body, rest, rfl, blank, visible, scanned, others⟩ := piecesFirst run
    obtain ⟨place, last, passed, left⟩ := ih others
    exact ⟨place, last, .cons blank visible scanned passed, left⟩

theorem passedPieces (passed : Passed offset cs ps place rest) :
    pieces offset cs = (ps ++ (pieces place rest).1, (pieces place rest).2) := by
  induction passed with
  | nil => rfl
  | cons blank visible scanned tail ih =>
    rw [piecesStep blank visible, scanComplete scanned]
    simp only [ih, List.cons_append]

theorem passedFront (passed : Passed offset cs ps place rest) :
    ∃ front, cs = front ++ rest ∧ place = offset + byteSize front := by
  induction passed with
  | nil => exact ⟨[], rfl, rfl⟩
  | @cons offset layout c body piece rest ps place last blank visible scanned tail ih =>
    obtain ⟨front, rfl, here⟩ := ih
    have whole := scannedText scanned
    have next := scannedNext scanned
    rw [String.toList_ofList] at whole
    have sizes := congrArg byteSize whole
    refine ⟨piece.text ++ front, by rw [whole, List.append_assoc], ?_⟩
    rw [Text.byteSizeAppend, Text.byteSizeAppend] at sizes
    rw [Text.byteSizeAppend]
    omega

theorem passedCut (passed : Passed offset cs ps place rest) (blank : Layout rest) :
    Cut offset cs ps (.ofList rest) := by
  induction passed with
  | nil => exact .nil blank
  | cons gap visible scanned tail ih => exact .cons gap visible scanned (ih blank)

/-! ## The text before a closing brace -/

theorem endsBefore {s : State} (stop : s.endsAt (back ++ '\x7d' :: more) = true) : s.endsAt back = true := by
  cases back with
  | cons c cs => exact stop
  | nil =>
    have stops : s.stops '\x7d' = true := stop
    obtain ⟨spot, depth⟩ := s
    cases spot <;> simp_all [State.stops, State.endsAt, State.hidden]

theorem preludeCut (back : List Char)
    (ok : Scan.prelude offset depth cs = .ok (text, back ++ '\x7d' :: more)) :
    cs = text ++ back ++ '\x7d' :: more ∧ Scan.prelude offset depth (text ++ back) = .ok (text, back) := by
  obtain ⟨rfl, s, run, stop⟩ := State.preludeExact.mp ok
  exact ⟨(List.append_assoc _ _ _).symm, State.preludeComplete offset run (endsBefore stop)⟩

theorem plainCut (plain : plainStart (front ++ more) = true) : plainStart front = true := by
  match front with
  | [] => rfl
  | a :: b :: _ => exact (plainStartTwo a b _ _).trans plain
  | [a] =>
    refine plainOther ?_ ?_ ?_ ?_
    · rintro rest ⟨⟩
      cases plain
    · rintro rest ⟨⟩
    · rintro rest ⟨⟩
    · rintro rest ⟨⟩
      cases plain

theorem namedCut {n : AtRuleName} (name : AtRuleName.ofText cs = n) (rest : n.rest = front ++ more) :
    ∃ early, cs = early ++ more ∧ AtRuleName.ofText early = ⟨n.name, n.blanks, front⟩ := by
  have whole := atRuleWhole cs
  have named := namedOfText cs
  rw [name, rest] at whole named
  exact ⟨n.name ++ (n.blanks ++ front), by simp [← whole], ofTextNamed named.front⟩

theorem lineCut (left : cs.dropWhile (· != '\n') = back ++ '\x7d' :: more) :
    ∃ early, cs = early ++ '\x7d' :: more ∧ early.takeWhile (· != '\n') = cs.takeWhile (· != '\n') ∧
      early.dropWhile (· != '\n') = back := by
  have whole := List.takeWhile_append_dropWhile (p := (· != '\n')) (l := cs)
  have line : '\n' ∉ cs.takeWhile (· != '\n') := fun inside => by simpa using List.mem_takeWhile_imp inside
  have first := List.head?_dropWhile_not (· != '\n') cs
  rw [left] at whole first
  obtain ⟨take, drop⟩ := lineTaken line back
  refine ⟨cs.takeWhile (· != '\n') ++ back, by rw [List.append_assoc, whole], ?_, ?_⟩
  · rw [take]
    cases back <;> simp_all
  · rw [drop]
    cases back <;> simp_all

theorem blanksBefore {blanks tail : List Char} (blank : ∀ c ∈ blanks, isBlank c = true) (stop : AtEnd tail)
    (whole : blanks ++ tail = back ++ '\x7d' :: more) :
    ∃ left, back = blanks ++ left ∧ tail = left ++ '\x7d' :: more ∧ AtEnd left := by
  rcases List.append_eq_append_iff.mp whole with ⟨left, rfl, rfl⟩ | ⟨early, rfl, rest⟩
  · refine ⟨left, rfl, rfl, ?_⟩
    rcases stop with none | ⟨others, some⟩
    · simp at none
    · cases left with
      | nil => exact .inl rfl
      | cons c cs => exact .inr ⟨cs, by rw [(List.cons.inj some).1]⟩
  · cases early with
    | nil => exact ⟨[], by simp, by simpa using rest.symm, .inl rfl⟩
    | cons c cs =>
      obtain ⟨rfl, -⟩ := List.cons.inj rest
      exact absurd (blank '\x7d' (by simp)) (by decide)

theorem scannedCut (scanned : Scanned before start cs piece rest) (left : rest = back ++ '\x7d' :: more) :
    ∃ early, cs = early ++ '\x7d' :: more ∧ Scanned before start early piece back := by
  cases scanned with
  | close rest => exact ⟨'\x7d' :: back, by rw [left]; rfl, .close _⟩
  | comment closed =>
    subst left
    exact ⟨'/' :: '*' :: (_ ++ '*' :: '/' :: back), by simp [Scan.closeCommentWhole closed],
      .comment (closedElsewhere closed back)⟩
  | line body =>
    obtain ⟨early, rfl, take, drop⟩ := lineCut left
    refine ⟨'/' :: '/' :: early, rfl, ?_⟩
    rw [← take, ← drop]
    exact .line early
  | atBlock name params =>
    subst left
    obtain ⟨whole, cut⟩ := preludeCut ('\x7b' :: back) params
    obtain ⟨early, rfl, named⟩ := namedCut name whole
    have read := @Scanned.atBlock before start _ _ _ _ named cut
    exact ⟨'@' :: early, rfl, read⟩
  | atEnded name params =>
    subst left
    obtain ⟨whole, cut⟩ := preludeCut (';' :: back) params
    obtain ⟨early, rfl, named⟩ := namedCut name whole
    have read := @Scanned.atEnded before start _ _ _ _ named cut
    exact ⟨'@' :: early, rfl, read⟩
  | atOpen name params stop =>
    obtain ⟨tail, rfl, rfl, stopped⟩ := blanksBefore (Text.trailingBlank _) stop left
    obtain ⟨whole, cut⟩ := preludeCut tail params
    obtain ⟨early, rfl, named⟩ := namedCut name whole
    have read := @Scanned.atOpen before start _ _ _ _ named cut stopped
    exact ⟨'@' :: early, rfl, read⟩
  | rule plain head =>
    subst left
    obtain ⟨rfl, cut⟩ := preludeCut ('\x7b' :: back) head
    exact ⟨_, rfl, .rule (plainCut plain) cut⟩
  | ended plain body parts =>
    subst left
    obtain ⟨rfl, cut⟩ := preludeCut (';' :: back) body
    exact ⟨_, rfl, .ended (plainCut plain) cut parts⟩
  | opened plain body stop parts =>
    obtain ⟨tail, rfl, rfl, stopped⟩ := blanksBefore (declarationAfter parts) stop left
    obtain ⟨rfl, cut⟩ := preludeCut tail body
    exact ⟨_, rfl, .opened (plainCut plain) cut stopped parts⟩

theorem passedBefore (passed : Passed offset cs ps place rest) (left : rest = back ++ '\x7d' :: more) :
    ∃ early, cs = early ++ '\x7d' :: more ∧ Passed offset early ps place back := by
  induction passed with
  | nil => exact ⟨back, left, .nil⟩
  | @cons offset layout c body piece rest ps place last blank visible scanned tail ih =>
    obtain ⟨front, behind, others⟩ := ih left
    obtain ⟨early, whole, first⟩ := scannedCut scanned behind
    cases early with
    | nil => cases Nat.not_lt_zero _ (Piece.scanLength (scanComplete first))
    | cons d early =>
      obtain ⟨rfl, rfl⟩ := List.cons.inj whole
      exact ⟨layout ++ c :: early, by simp, .cons blank visible first others⟩

end SheetLint
