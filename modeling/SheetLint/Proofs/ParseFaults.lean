import SheetLint.Proofs.CutShort
import SheetLint.Proofs.JoinedTexts
import SheetLint.Proofs.QuotedScans

/-! Why a text is rejected. Every fault is found at a place where the text itself shows it: an opening without a
closing behind it, a brace that closes nothing although the text before it can be read, or a statement without a
colon. The line and the column that are reported are those of that place. -/
namespace SheetLint
open Text (byteSize Stands)

/-! ## Faults of nesting -/

/- The pieces read so far are whole trees, and for each open block its head and the whole trees in it. -/
inductive OpenBlocks (index : LineIndex) : List Piece → List Frame → List (Node × Forest Node) → Nat → Prop where
  | root {ps done fresh} (nested : Nested index 1 ps (.ofTrees done.reverse) fresh) :
      OpenBlocks index ps [] done fresh
  | block {ps frames outer fresh data start brace inner done last} (opened : OpenBlocks index ps frames outer fresh)
      (nested : Nested index (fresh + 1) inner (.ofTrees done.reverse) last) :
      OpenBlocks index (ps ++ .head data start brace :: inner)
        (⟨⟨fresh, data⟩, start, brace, outer⟩ :: frames) done last

inductive Blamed (index : LineIndex) : Ending → Fault → List Piece → Prop where
  | piece {fault ps} : Blamed index (.failed fault) fault ps
  | close {ending front after brace behind f last} (nested : Nested index 1 front f last) :
      Blamed index ending ⟨.unexpectedClose, brace⟩ (front ++ .close after brace :: behind)
  | block {front data start brace inner f fresh last after} (nested : Nested index fresh inner f last) :
      Blamed index (.finished after) ⟨.unclosedBlock, brace⟩ (front ++ .head data start brace :: inner)

variable {index : LineIndex} {ending : Ending} {ps qs early : List Piece} {frames : List Frame}
  {done : List (Node × Forest Node)} {fresh last : Nat} {fault : Fault}

theorem OpenBlocks.push {node : Node} {children : Forest Node} (opened : OpenBlocks index ps frames done fresh)
    (tree : Nested index fresh qs (.cons node children .nil) last) :
    OpenBlocks index (ps ++ qs) frames ((node, children) :: done) last := by
  have pushed : Forest.ofTrees ((node, children) :: done).reverse =
      .ofTrees done.reverse ++ .cons node children .nil := by
    rw [← Forest.ofTreesPush, Forest.appendNil]
  cases opened with
  | root nested => exact .root (pushed ▸ nestedAppend nested tree)
  | block outer nested =>
    rw [List.append_assoc, List.cons_append]
    exact .block outer (pushed ▸ nestedAppend nested tree)

theorem nestBlamed (opened : OpenBlocks index early frames done fresh)
    (failed : nest index ending ps frames done fresh = .error fault) :
    Blamed index ending fault (early ++ ps) := by
  -- each piece moves to the ones read so far, so what is blamed is found in the whole list
  induction ps generalizing early frames done fresh with
  | nil =>
    rw [List.append_nil]
    cases ending with
    | failed first =>
      cases failed
      exact .piece
    | finished after =>
      cases opened with
      | root nested => cases failed
      | block outer nested =>
        cases failed
        exact .block nested
  | cons piece ps ih =>
    cases piece with
    | leaf data start stop =>
      have moved := ih (opened.push (.leaf (.nil _))) failed
      rwa [List.append_assoc] at moved
    | head data start brace =>
      have moved := ih (.block opened (.nil _)) failed
      rwa [List.append_assoc] at moved
    | close after brace =>
      cases opened with
      | root nested =>
        cases failed
        exact .close nested
      | @block _ _ _ _ data start opening _ _ _ outer nested =>
        have tree := @Nested.block index _ data start opening _ after brace _ _ _ _ _ nested (.nil _)
        have moved := ih (outer.push tree) failed
        simpa using moved

/-! ## Faults inside a piece -/

inductive Unclosed : ParseCause → List Char → Prop where
  | comment {more} (missing : Scan.closeComment more = none) : Unclosed .unclosedComment ('/' :: '*' :: more)
  | string {quote more} (mark : quote = '"' ∨ quote = '\'') (missing : Scan.closeQuote quote more = none) :
      Unclosed .unclosedString (quote :: more)

variable {before : String} {start offset depth : Nat} {cs text rest : List Char}

def UnclosedIn (fault : Fault) (offset : Nat) (cs : List Char) : Prop :=
  ∃ front rest, cs = front ++ rest ∧ fault.offset = offset + byteSize front ∧ Unclosed fault.cause rest

theorem UnclosedIn.here (unclosed : Unclosed fault.cause cs) : UnclosedIn fault fault.offset cs :=
  ⟨[], cs, rfl, rfl, unclosed⟩

theorem UnclosedIn.behind {chunk : List Char} (inside : UnclosedIn fault (offset + byteSize chunk) cs) :
    UnclosedIn fault offset (chunk ++ cs) := by
  obtain ⟨front, rest, rfl, place, unclosed⟩ := inside
  refine ⟨chunk ++ front, rest, (List.append_assoc _ _ _).symm, ?_, unclosed⟩
  rw [place, Text.byteSizeAppend, Nat.add_assoc]

theorem passedFails {chunk : List Char} {r : Except Fault (List Char × List Char)}
    (failed : r.map (Scan.passed chunk) = .error fault) : r = .error fault := by
  cases r with
  | error f =>
    cases failed
    rfl
  | ok p => cases failed

theorem preludeUnclosed (failed : Scan.prelude offset depth cs = .error fault) : UnclosedIn fault offset cs := by
  fun_induction Scan.prelude offset depth cs with
  | case1 => cases failed
  | case2 offset depth rest missing =>
    cases failed
    exact .here (.comment missing)
  | case3 offset depth rest body after closed ih =>
    have whole : '/' :: '*' :: rest = Scan.comment body ++ after := by
      simp [Scan.comment, Scan.closeCommentWhole closed]
    rw [whole]
    exact .behind (ih (passedFails failed))
  | case4 offset depth rest ih =>
    have whole : '#' :: '\x7b' :: rest = Scan.interpolation rest ++ (Scan.closeBraces 1 rest).2 := by
      simp [Scan.interpolation, Scan.closeBracesWhole]
    rw [whole]
    exact .behind (ih (passedFails failed))
  | case5 offset depth c rest ih => exact UnclosedIn.behind (ih (passedFails failed))
  | case6 offset depth c rest _ _ _ mark missing =>
    cases failed
    exact .here (.string (by simpa using mark) missing)
  | case7 offset depth c rest _ _ _ mark inner after closed ih =>
    have whole : c :: rest = (c :: inner) ++ after := by
      rw [Scan.closeQuoteWhole closed]
      rfl
    rw [whole]
    exact .behind (ih (passedFails failed))
  | case8 => cases failed
  | case9 offset depth c rest _ _ _ _ _ ih =>
    have size : byteSize [c] = c.utf8Size := by rw [Text.byteSizeCons]; rfl
    have inside := ih (passedFails failed)
    rw [← size] at inside
    exact UnclosedIn.behind inside

theorem splitFirstMissing {sep : Char} : Text.splitFirst? sep cs = none ↔ sep ∉ cs := by
  fun_induction Text.splitFirst? sep cs with
  | case1 => simp
  | case2 c cs same =>
    rw [beq_iff_eq] at same
    simp [same]
  | case3 c cs other ih =>
    rw [beq_iff_eq] at other
    rw [Option.map_eq_none_iff, ih, List.mem_cons, not_or]
    exact ⟨fun missing => ⟨fun same => other same.symm, missing⟩, And.right⟩

structure Colonless (start : Nat) (cs : List Char) : Prop where
  plain : plainStart cs = true
  body : ∃ text after, Scan.prelude start 0 cs = .ok (text, after) ∧ (∀ more, after ≠ '\x7b' :: more) ∧ ':' ∉ text

theorem statementFault (plain : plainStart cs = true) (failed : Piece.statement before start cs = .error fault) :
    UnclosedIn fault start cs ∨ fault = ⟨.missingColon, start⟩ ∧ Colonless start cs := by
  match run : Scan.prelude start 0 cs with
  | .error first =>
    rw [Piece.statement, run] at failed
    cases failed
    exact .inl (preludeUnclosed run)
  | .ok (text, after) =>
    by_cases block : ∃ more, after = '\x7b' :: more
    · obtain ⟨more, rfl⟩ := block
      rw [Piece.statement, run] at failed
      cases failed
    · have other (more : List Char) (same : after = '\x7b' :: more) : False := block ⟨more, same⟩
      rw [statementDeclaration run other, Piece.declaration] at failed
      split at failed
      · next missing =>
        cases failed
        exact .inr ⟨rfl, plain, text, after, run, other,
          splitFirstMissing.mp (Option.map_eq_none_iff.mp missing)⟩
      · split at failed <;> cases failed

theorem atRuleFault (failed : Piece.atRule before start cs = .error fault) :
    UnclosedIn fault start ('@' :: cs) := by
  have whole := atRuleWhole cs
  unfold Piece.atRule at failed
  generalize AtRuleName.ofText cs = n at failed whole
  dsimp only at failed
  split at failed
  · next first params =>
    cases failed
    obtain ⟨front, rest, split, place, unclosed⟩ := preludeUnclosed params
    rw [split] at whole
    refine ⟨'@' :: (n.name ++ n.blanks ++ front), rest, by simp [← whole], ?_, unclosed⟩
    have wide : '@'.utf8Size = 1 := rfl
    rw [place, Text.byteSizeCons, Text.byteSizeAppend, Text.byteSizeAppend, wide]
    omega
  · cases failed
  · cases failed
  · cases failed

theorem scanFault (failed : Piece.scan before start cs = .error fault) :
    UnclosedIn fault start cs ∨ fault = ⟨.missingColon, start⟩ ∧ Colonless start cs := by
  unfold Piece.scan at failed
  split at failed
  · cases failed
  · split at failed
    · next missing =>
      cases failed
      exact .inl (.here (.comment missing))
    · cases failed
  · cases failed
  · exact .inl (atRuleFault failed)
  · next close comment line named => exact statementFault (plainOther close comment line named) failed

/-! ## Whole texts -/

theorem cutParses {after : String} {f : Forest Node} (cut : Cut offset cs ps after)
    (nested : Nested index fresh ps f last) : ∃ sheet, Sheet.parse (.ofList cs) = .ok sheet := by
  have shaped := cutShaped cut
  have read : marks (String.ofList cs).toList = some f.marks := by
    rw [String.toList_ofList]
    exact (marksExact offset).mpr ⟨ps, after, cut, nestedMarks nested shaped⟩
  obtain ⟨sheet, ok, -⟩ := marksParsed (nestedBlocks nested shaped) read
  exact ⟨sheet, ok⟩

/- The reader comes to `rest` between two pieces, and it begins neither a block's end, nor a comment, nor an
at-rule. -/
def StatementAt (front rest : List Char) : Prop :=
  ∃ ps place layout c body, Passed 0 (front ++ rest) ps place (layout ++ rest) ∧ Layout layout ∧
    rest = c :: body ∧ isLayout c = false ∧ plainStart rest = true

def ParseCause.Witnessed (front rest : List Char) : ParseCause → Prop
  | .unexpectedClose => (∃ more, rest = '\x7d' :: more) ∧ ∃ sheet, Sheet.parse (.ofList front) = .ok sheet
  | .unclosedBlock => ∃ more, rest = '\x7b' :: more ∧ ∃ sheet, Sheet.parse (.ofList more) = .ok sheet
  | .unclosedComment => ∃ more, rest = '/' :: '*' :: more ∧ ¬['*', '/'] <:+: more
  | .unclosedString => ∃ quote more, rest = quote :: more ∧ Lexeme.isQuote quote = true ∧ ¬Stands false quote more
  | .missingColon => StatementAt front rest ∧ ∃ text after,
      Scan.prelude (byteSize front) 0 rest = .ok (text, after) ∧ (∀ more, after ≠ '\x7b' :: more) ∧ ':' ∉ text

theorem ParseCause.Witnessed.inhabited {cause : ParseCause} {front rest : List Char}
    (witnessed : cause.Witnessed front rest) : rest ≠ [] := by
  cases cause with
  | unexpectedClose => obtain ⟨⟨more, rfl⟩, -⟩ := witnessed; exact List.cons_ne_nil _ _
  | unclosedBlock => obtain ⟨more, rfl, -⟩ := witnessed; exact List.cons_ne_nil _ _
  | unclosedComment => obtain ⟨more, rfl, -⟩ := witnessed; exact List.cons_ne_nil _ _
  | unclosedString => obtain ⟨quote, more, rfl, -⟩ := witnessed; exact List.cons_ne_nil _ _
  | missingColon =>
    obtain ⟨⟨ps, place, layout, c, body, -, -, rfl, -⟩, -⟩ := witnessed
    exact List.cons_ne_nil _ _

def Fault.Shown (fault : Fault) (cs : List Char) : Prop :=
  ∃ front rest, cs = front ++ rest ∧ fault.offset = byteSize front ∧ fault.cause.Witnessed front rest

theorem unclosedWitnessed {cause : ParseCause} (unclosed : Unclosed cause rest) (front : List Char) :
    cause.Witnessed front rest := by
  cases unclosed with
  | comment missing => exact ⟨_, rfl, commentMissing.mp missing⟩
  | string mark missing =>
    rcases mark with rfl | rfl
    · exact ⟨_, _, rfl, rfl, (quoteMissing (by decide)).mp missing⟩
    · exact ⟨_, _, rfl, rfl, (quoteMissing (by decide)).mp missing⟩

theorem piecesFailed (run : pieces offset cs = ([], .failed fault)) :
    ∃ layout c body, cs = layout ++ c :: body ∧ Layout layout ∧ isLayout c = false ∧
      Piece.scan (.ofList layout) (offset + byteSize layout) (c :: body) = .error fault := by
  rcases layoutCases cs with blank | ⟨layout, c, body, rfl, blank, visible⟩
  · cases (piecesEnd blank offset).symm.trans run
  · refine ⟨layout, c, body, rfl, blank, visible, ?_⟩
    rw [piecesStep blank visible] at run
    split at run
    · next failed =>
      cases run
      exact failed
    · cases run

theorem pieceShown (run : pieces 0 cs = (ps, .failed fault)) : fault.Shown cs := by
  rw [← List.append_nil ps] at run
  obtain ⟨place, rest, passed, failed⟩ := piecesPassed run
  obtain ⟨layout, c, body, rfl, blank, visible, scan⟩ := piecesFailed failed
  obtain ⟨front, rfl, here⟩ := passedFront passed
  have size : place + byteSize layout = byteSize (front ++ layout) := by
    rw [Text.byteSizeAppend]
    omega
  rcases scanFault scan with ⟨inner, rest, split, place, unclosed⟩ | ⟨rfl, plain, statement⟩
  · refine ⟨front ++ layout ++ inner, rest, by simp [split], ?_, unclosedWitnessed unclosed _⟩
    rw [place, size, ← Text.byteSizeAppend]
  · refine ⟨front ++ layout, c :: body, by simp, size, ?_, by rwa [size] at statement⟩
    rw [← List.append_assoc] at passed
    exact ⟨ps, place, layout, c, body, passed, blank, rfl, visible, plain⟩

theorem closeShown {front : List Piece} {after : String} {brace : Nat} {f : Forest Node}
    (run : pieces 0 cs = (front ++ .close after brace :: qs, ending)) (nested : Nested index 1 front f last) :
    Fault.Shown ⟨.unexpectedClose, brace⟩ cs := by
  obtain ⟨place, rest, passed, others⟩ := piecesPassed run
  obtain ⟨layout, c, body, left, rfl, blank, visible, scanned, -⟩ := piecesFirst others
  cases scanned
  obtain ⟨early, rfl, inside⟩ := passedBefore passed rfl
  obtain ⟨start, rfl, here⟩ := passedFront inside
  refine ⟨start ++ layout, _, rfl, ?_, ⟨_, rfl⟩, cutParses (passedCut inside blank) nested⟩
  rw [here, Nat.zero_add, Text.byteSizeAppend]

theorem headBrace {data : NodeData} {first brace : Nat}
    (scanned : Scanned before start cs (.head data first brace) rest) :
    ∃ heading, cs = heading ++ '\x7b' :: rest ∧ brace = start + byteSize heading := by
  have next := scannedNext scanned
  have wide : '\x7b'.utf8Size = 1 := rfl
  cases scanned with
  | @atBlock cs n text rest name params =>
    have whole := atRuleWhole cs
    rw [name, (Scan.preludeWhole params).1] at whole
    refine ⟨'@' :: (n.name ++ n.blanks ++ text), by simp [← whole], ?_⟩
    rw [Piece.next, ← whole] at next
    simp only [Text.byteSizeCons, Text.byteSizeAppend] at next ⊢
    omega
  | rule plain head => exact ⟨_, (Scan.preludeWhole head).1, rfl⟩

theorem blockShown {front : List Piece} {data : NodeData} {start brace middle : Nat} {after : String} {f : Forest Node}
    (run : pieces 0 cs = (front ++ .head data start brace :: qs, .finished after))
    (nested : Nested index middle qs f last) : Fault.Shown ⟨.unclosedBlock, brace⟩ cs := by
  obtain ⟨place, rest, passed, others⟩ := piecesPassed run
  obtain ⟨layout, c, body, inner, rfl, blank, visible, scanned, inside⟩ := piecesFirst others
  obtain ⟨before, rfl, here⟩ := passedFront passed
  obtain ⟨heading, split, opening⟩ := headBrace scanned
  refine ⟨before ++ layout ++ heading, '\x7b' :: inner, by simp [split], ?_, inner, rfl,
    cutParses (cutSound inside) nested⟩
  rw [opening, here]
  simp only [Text.byteSizeAppend]
  omega

theorem nestShown (failed : nest index (pieces 0 cs).2 (pieces 0 cs).1 [] [] 1 = .error fault) : fault.Shown cs := by
  have blamed := nestBlamed (.root (.nil 1)) failed
  match run : pieces 0 cs with
  | (ps, ending) =>
    rw [run, List.nil_append] at blamed
    cases blamed with
    | piece => exact pieceShown run
    | close nested => exact closeShown run nested
    | block nested => exact blockShown run nested

theorem Sheet.faultsWitnessed {source : String} {error : ParseError} (failed : parse source = .error error) :
    ∃ front rest, source.toList = front ++ rest ∧ error.line = (Position.behind front).line ∧
      error.column = (Position.behind front).column ∧ error.cause.Witnessed front rest ∧
      (byteSize source.toList < UInt32.size → (Position.behind front).Exact front) := by
  unfold parse at failed
  dsimp only at failed
  cases run : nest (.ofText source.toList) (pieces 0 source.toList).2 (pieces 0 source.toList).1 [] [] 1 with
  | ok sheet =>
    rw [run] at failed
    cases failed
  | error fault =>
    rw [run] at failed
    cases failed
    obtain ⟨front, rest, whole, place, witnessed⟩ := nestShown run
    have reported := LineIndex.positionBehind (⟨rest, whole.symm⟩ : front <+: source.toList)
    rw [← place] at reported
    refine ⟨front, rest, whole, congrArg Position.line reported, congrArg Position.column reported, witnessed, ?_⟩
    -- the place is that of a byte of the text, so it is not the last one
    intro short
    have wide := Text.byteSizePos witnessed.inhabited
    rw [whole, Text.byteSizeAppend] at short
    exact Position.behindExact (by omega)

def strayClose : String := "a\x7bb:'\x7d'\x7d\n/*\x7d*/c:d \x7d e"

theorem Sheet.faultsWitnessedClose :
    parse strayClose = .error ⟨.unexpectedClose, 2, 10⟩ ∧
      ∃ front rest, strayClose.toList = front ++ rest ∧ 2 = (Position.behind front).line ∧
        10 = (Position.behind front).column ∧ ParseCause.unexpectedClose.Witnessed front rest ∧
        (byteSize strayClose.toList < UInt32.size → (Position.behind front).Exact front) := by
  have failed : parse strayClose = .error ⟨.unexpectedClose, 2, 10⟩ := by decide +kernel
  exact ⟨failed, faultsWitnessed failed⟩

end SheetLint
