import SheetLint.Proofs.NodeSpans

/-! No scan looks past its own statement. A piece whose end shows in the text is cut off in the same way
whatever is written behind that text; only a statement left open and a line comment take in what follows
them at the end. -/
namespace SheetLint
open Text (byteSize isBlank trailing)
open Scan (State)

variable {before : String} {start offset depth : Nat} {cs text rest : List Char} {piece : Piece}

theorem preludeExtended (ok : Scan.prelude offset depth cs = .ok (text, rest)) (some : rest ≠ [])
    (more : List Char) : Scan.prelude offset depth (cs ++ more) = .ok (text, rest ++ more) := by
  obtain ⟨rfl, s, run, stop⟩ := State.preludeExact.mp ok
  obtain ⟨c, rest, rfl⟩ := List.exists_cons_of_ne_nil some
  rw [List.append_assoc]
  exact State.preludeComplete offset run stop

theorem namedExtended {n : AtRuleName} (name : AtRuleName.ofText cs = n) (some : n.rest ≠ [])
    (more : List Char) : AtRuleName.ofText (cs ++ more) = ⟨n.name, n.blanks, n.rest ++ more⟩ := by
  have whole := atRuleWhole cs
  have named := namedOfText cs
  rw [name] at whole named
  rw [← whole, List.append_assoc, List.append_assoc]
  refine ofTextNamed ⟨named.letters, named.spaces, ?_, ?_⟩
  · rw [List.head?_append_of_ne_nil _ some]
    exact named.first
  · rw [List.head?_append_of_ne_nil _ some]
    exact named.apart

theorem plainExtended (plain : plainStart cs = true) (ok : Scan.prelude offset depth cs = .ok (text, rest))
    (some : rest ≠ []) (more : List Char) : plainStart (cs ++ more) = true := by
  obtain ⟨whole, ends⟩ := Scan.preludeWhole ok
  match cs, text with
  | [], _ => cases some (List.append_eq_nil_iff.mp whole.symm).2
  | a :: b :: _, _ => exact (plainStartTwo a b _ _).trans plain
  | [a], _ :: _ =>
    obtain ⟨-, tail⟩ := List.cons.inj whole
    cases some (List.append_eq_nil_iff.mp tail.symm).2
  | [a], [] =>
    have stops := ends a (by rw [← show [a] = rest from whole]; rfl)
    simp only [Scan.endsStatement, Bool.or_eq_true, beq_iff_eq] at stops
    rcases stops with (rfl | rfl) | rfl
    · rfl
    · rfl
    · cases plain

theorem lineExtended (some : cs.dropWhile (· != '\n') ≠ []) (more : List Char) :
    (cs ++ more).takeWhile (· != '\n') = cs.takeWhile (· != '\n') ∧
      (cs ++ more).dropWhile (· != '\n') = cs.dropWhile (· != '\n') ++ more := by
  have whole := List.takeWhile_append_dropWhile (p := (· != '\n')) (l := cs)
  have line : '\n' ∉ cs.takeWhile (· != '\n') := fun inside => by simpa using List.mem_takeWhile_imp inside
  have first := List.head?_dropWhile_not (· != '\n') cs
  obtain ⟨c, tail, split⟩ := List.exists_cons_of_ne_nil some
  rw [split, List.head?_cons] at first
  obtain ⟨take, drop⟩ := lineTaken line (c :: (tail ++ more))
  rw [← List.cons_append, ← split, ← List.append_assoc, whole] at take drop
  rw [take, drop, split, List.cons_append, List.takeWhile_cons, List.dropWhile_cons, first]
  simp

def Piece.Ended (rest : List Char) : Piece → Prop
  | leaf data _ _ => (data.isOpen = true → ∃ c ∈ rest, isBlank c = false) ∧
      ∀ text, data.kind = .comment text true → rest ≠ []
  | _ => True

theorem endShown {blanks tail : List Char} (blank : ∀ c ∈ blanks, isBlank c = true)
    (shown : ∃ c ∈ blanks ++ tail, isBlank c = false) : tail ≠ [] := by
  rintro rfl
  obtain ⟨c, inside, visible⟩ := shown
  rw [List.append_nil] at inside
  cases visible.symm.trans (blank c inside)

theorem atEndExtended {more : List Char} (stop : AtEnd rest) (some : rest ≠ []) : AtEnd (rest ++ more) := by
  rcases stop with rfl | ⟨others, rfl⟩
  · exact absurd rfl some
  · exact .inr ⟨_, rfl⟩

theorem paramsNonempty {n : AtRuleName} (ok : Scan.prelude offset depth n.rest = .ok (text, rest))
    (some : rest ≠ []) : n.rest ≠ [] := by
  intro none
  rw [(Scan.preludeWhole ok).1] at none
  exact some (List.append_eq_nil_iff.mp none).2

theorem scannedExtended (scanned : Scanned before start cs piece rest) (ended : piece.Ended rest)
    (more : List Char) : Scanned before start (cs ++ more) piece (rest ++ more) := by
  cases scanned with
  | close rest => exact .close _
  | @comment body text rest closed =>
    have whole : body ++ more = text ++ '*' :: '/' :: (rest ++ more) := by
      rw [Scan.closeCommentWhole closed, List.append_assoc]
      rfl
    rw [List.cons_append, List.cons_append, whole]
    exact .comment (closedElsewhere closed _)
  | line body =>
    obtain ⟨take, drop⟩ := lineExtended (ended.2 _ rfl) more
    rw [List.cons_append, List.cons_append, ← take, ← drop]
    exact .line _
  | atBlock name params =>
    have some := paramsNonempty params (by simp)
    have read := @Scanned.atBlock before start _ _ _ _ (namedExtended name some more)
      (preludeExtended params (by simp) more)
    exact read
  | atEnded name params =>
    have some := paramsNonempty params (by simp)
    have read := @Scanned.atEnded before start _ _ _ _ (namedExtended name some more)
      (preludeExtended params (by simp) more)
    exact read
  | atOpen name params stop =>
    have shown := endShown (Text.trailingBlank _) (ended.1 rfl)
    have read := @Scanned.atOpen before start _ _ _ _
      (namedExtended name (paramsNonempty params shown) more) (preludeExtended params shown more)
      (atEndExtended stop shown)
    rw [List.append_assoc]
    exact read
  | rule plain head =>
    exact .rule (plainExtended plain head (by simp) more) (preludeExtended head (by simp) more)
  | ended plain body parts =>
    exact .ended (plainExtended plain body (by simp) more) (preludeExtended body (by simp) more) parts
  | opened plain body stop parts =>
    have shown := endShown (declarationAfter parts) (ended.1 rfl)
    rw [List.append_assoc]
    exact .opened (plainExtended plain body shown more) (preludeExtended body shown more)
      (atEndExtended stop shown) parts

/-! ## Whole texts -/

variable {ps : List Piece} {after : String}

theorem endedBetween {next : Piece} (tail : Cut offset rest (next :: ps) after) (piece : Piece) :
    piece.Ended rest := by
  have some : ¬∀ c ∈ rest, isBlank c = true := fun blank => by cases (blanksOnly blank tail).1
  cases piece with
  | leaf data start stop =>
    refine ⟨fun _ => ?_, ?_⟩
    · simpa using some
    · rintro - - rfl
      exact some (by simp)
  | head => trivial
  | close => trivial

theorem piecesExtended (cut : Cut offset cs ps after) (ended : ∀ p ∈ ps.getLast?, p.Ended after.toList)
    {place : Nat} (here : place + byteSize after.toList = offset + byteSize cs) (more : List Char) :
    pieces offset (cs ++ more) =
      (ps ++ (pieces place (after.toList ++ more)).1, (pieces place (after.toList ++ more)).2) := by
  induction cut with
  | nil blank =>
    rw [String.toList_ofList, Nat.add_right_cancel_iff] at here
    rw [String.toList_ofList, here]
    rfl
  | @cons offset layout c body piece rest ps after blank visible scanned tail ih =>
    have next := scannedNext scanned
    have own : piece.Ended rest := by
      cases tail with
      | nil => simpa using ended piece rfl
      | cons gap shown first others => exact endedBetween (.cons gap shown first others) piece
    have others : ∀ p ∈ ps.getLast?, p.Ended after.toList := by
      intro p last
      refine ended p ?_
      rw [List.getLast?_cons, Option.mem_def.mp last]
      rfl
    have found := scanComplete (scannedExtended scanned own more)
    rw [Text.byteSizeAppend] at here
    rw [List.cons_append] at found
    rw [List.append_assoc, List.cons_append, piecesStep blank visible, found]
    dsimp only
    rw [ih others (by omega)]
    rfl

/-! ## Sheets -/

/- Whether the last node is over with its own text, so that nothing behind it can become part of it. -/
def Sheet.ended (sheet : Sheet) : Bool :=
  match sheet.body.roots.getLast? with
  | none => true
  | some node =>
    match node.data.kind with
    | .comment _ true => sheet.root.raws.after.toList.contains '\n'
    | _ => !node.data.isOpen

theorem endedLast {index : LineIndex} {fresh last : Nat} {sheet : Sheet} (ended : sheet.ended = true)
    (nested : Nested index fresh ps sheet.body last) :
    ∀ p ∈ ps.getLast?, p.Ended sheet.root.raws.after.toList := by
  intro p isLast
  cases p with
  | head => trivial
  | close => trivial
  | leaf data start stop =>
    obtain ⟨qs, rfl⟩ := List.getLast?_eq_some_iff.mp isLast
    obtain ⟨g, middle, id, -, body⟩ := nestedLast nested
    rw [Sheet.ended, body, Forest.rootsAppend, List.getLast?_append] at ended
    simp only [Forest.roots, List.getLast?_singleton, Option.some_or] at ended
    split at ended
    · next kind =>
      refine ⟨fun isOpen => ?_, fun text same none => ?_⟩
      · rw [NodeData.isOpen, show data.kind = _ from kind] at isOpen
        cases isOpen
      · rw [none] at ended
        cases ended
    · next other =>
      refine ⟨fun isOpen => ?_, fun text same => absurd same (other text)⟩
      rw [Bool.not_eq_true'] at ended
      cases Eq.trans ended.symm isOpen

end SheetLint
