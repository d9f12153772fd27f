import Mathlib.Data.List.Chain
import SheetLint.Proofs.Nesting
import SheetLint.Proofs.ScanState
import SheetLint.Proofs.Trimming
import SheetLint.Sheet.Print

/-! Printing a sheet that was read gives its text back. A piece is written as it stood; a statement
without its semicolon ends its block, where the printer adds none. -/
namespace SheetLint
open Text (isBlank trimEnd trailing)

def NodeData.heading (node : NodeData) : String :=
  match node.kind with
  | .rule selector => selector ++ node.raws.between
  | .atRule name params _ => "@" ++ name ++ node.raws.afterName ++ params ++ node.raws.between
  | _ => ""

def Kind.isBlock : Kind → Bool
  | rule _ => true
  | atRule _ _ block => block
  | _ => false

def NodeData.isOpen (node : NodeData) : Bool :=
  match node.kind with
  | .declaration .. => !node.raws.semicolon
  | .atRule _ _ block => !block && !node.raws.semicolon
  | _ => false

theorem renderBlock {node : NodeData} (block : node.kind.isBlock = true) (last : Bool)
    (inner : String) : node.render last inner = node.heading ++ node.body inner := by
  unfold NodeData.render NodeData.heading
  cases kind : node.kind with
  | rule selector => rfl
  | atRule name params body =>
    rw [kind] at block
    cases block
    simp only [if_true, String.append_assoc]
  | _ =>
    rw [kind] at block
    cases block

theorem renderClosed {node : NodeData} (closed : node.isOpen = false) (last : Bool) (inner : String) :
    node.render last inner = node.render true inner := by
  cases kind : node.kind <;> simp_all [NodeData.isOpen, NodeData.render]

namespace Piece

def text : Piece → List Char
  | leaf data _ _ => data.raws.before.toList ++ (data.render true "").toList
  | head data _ _ => data.raws.before.toList ++ data.heading.toList ++ ['\x7b']
  | close before _ => before.toList ++ ['\x7d']

def Shaped : Piece → Prop
  | leaf data _ _ => data.kind.isBlock = false
  | head data _ _ => data.kind.isBlock = true
  | close _ _ => True

/- A statement left open ends where its block does. -/
def Follows : Piece → Piece → Prop
  | leaf _ _ _, close _ _ => True
  | leaf data _ _, _ => data.isOpen = false
  | _, _ => True

end Piece

/-! ## One piece -/

theorem importantWhole (value : List Char) :
    (splitImportant value).1 ++ (splitImportant value).2 = value := by
  unfold splitImportant
  split
  · next head tail cut =>
    split
    · rw [Text.splitLastWhole cut, Text.trimmedAppend]
    · exact List.append_nil _
  · exact List.append_nil _

theorem declarationWhole {text : List Char} {d : DeclarationText}
    (parts : DeclarationText.ofText? text = some d) : d.core ++ d.after = text := by
  obtain ⟨⟨name, rest⟩, cut, rfl⟩ := Option.map_eq_some_iff.1 parts
  have value := importantWhole (trimEnd (Text.trimStart rest))
  have whole := Text.splitFirstWhole cut
  calc
    _ = (trimEnd name ++ trailing name) ++ ':' :: (Text.leading rest ++
        (((splitImportant (trimEnd (Text.trimStart rest))).1 ++
          (splitImportant (trimEnd (Text.trimStart rest))).2) ++ trailing (Text.trimStart rest))) := by
      simp only [DeclarationText.core, List.append_assoc, List.cons_append]
    _ = text := by
      rw [value, Text.trimEndTrailing, Text.trimEndTrailing,
        Text.leadingTrimStart, whole]

theorem atRuleWhole (cs : List Char) :
    (AtRuleName.ofText cs).name ++ ((AtRuleName.ofText cs).blanks ++ (AtRuleName.ofText cs).rest) = cs := by
  unfold AtRuleName.ofText
  dsimp only
  rw [List.takeWhile_append_dropWhile, List.takeWhile_append_dropWhile]

theorem declarationRender (d : DeclarationText) (before : String) (terminated : Bool) :
    ((d.data before terminated).render true "").toList =
      d.core ++ if terminated then d.after ++ [';'] else [] := by
  have flag : (if (!d.important.isEmpty) then (d.data before terminated).flag else "").toList =
      d.important := by
    unfold NodeData.flag
    cases imp : d.important with
    | nil => rfl
    | cons c cs => simp [DeclarationText.data, imp]
  cases terminated <;> simp_all [NodeData.render, DeclarationText.data, DeclarationText.core]

variable {before : String} {start : Nat} {cs rest : List Char} {piece : Piece}

theorem scannedText (scanned : Scanned before start cs piece rest) :
    before.toList ++ cs = piece.text ++ rest := by
  cases scanned with
  | close rest => simp [Piece.text]
  | comment closed =>
    rw [Scan.closeCommentWhole closed]
    simp [Piece.text, Piece.comment, NodeData.render]
  | line body =>
    have whole : body.takeWhile (· != '\n') ++ body.dropWhile (· != '\n') = body :=
      List.takeWhile_append_dropWhile
    conv => lhs; rw [← whole]
    simp [Piece.text, Piece.comment, NodeData.render]
  | @atBlock cs n text rest name params =>
    have whole := atRuleWhole cs
    rw [name, (Scan.preludeWhole params).1] at whole
    rw [← whole]
    simp [Piece.text, NodeData.heading, AtRuleName.data]
  | @atEnded cs n text rest name params =>
    have whole := atRuleWhole cs
    rw [name, (Scan.preludeWhole params).1] at whole
    rw [← whole]
    simp [Piece.text, NodeData.render, AtRuleName.data]
  | @atOpen cs n text rest name params stop =>
    have whole := atRuleWhole cs
    rw [name, (Scan.preludeWhole params).1] at whole
    rw [← whole]
    simp [Piece.text, NodeData.render, AtRuleName.data]
  | @rule cs text rest plain head =>
    rw [(Scan.preludeWhole head).1]
    simp [Piece.text, NodeData.heading]
  | ended plain body parts =>
    rw [(Scan.preludeWhole body).1, Piece.text, declarationRender, ← declarationWhole parts]
    simp [DeclarationText.data]
  | opened plain body stop parts =>
    rw [(Scan.preludeWhole body).1, Piece.text, declarationRender, ← declarationWhole parts]
    simp [DeclarationText.data]

theorem scannedShaped (scanned : Scanned before start cs piece rest) : piece.Shaped := by
  cases scanned <;> trivial

theorem scannedOpen {data : NodeData} {first stop : Nat}
    (scanned : Scanned before start cs (.leaf data first stop) rest) (isOpen : data.isOpen = true) :
    ∃ blanks tail, rest = blanks ++ tail ∧ (∀ c ∈ blanks, isBlank c = true) ∧ AtEnd tail := by
  cases scanned with
  | comment closed => cases isOpen
  | line body => cases isOpen
  | atEnded name params => cases isOpen
  | atOpen name params stop => exact ⟨_, _, rfl, Text.trailingBlank _, stop⟩
  | ended plain body parts => cases isOpen
  | opened plain body stop parts =>
    obtain ⟨split, -, rfl⟩ := Option.map_eq_some_iff.1 parts
    exact ⟨_, _, rfl, Text.trailingBlank _, stop⟩

/-! ## Whole texts -/

theorem cutText {offset : Nat} {ps : List Piece} {after : String} (cut : Cut offset cs ps after) :
    cs = ps.flatMap Piece.text ++ after.toList := by
  induction cut with
  | nil blank => simp
  | @cons offset layout c body piece rest ps after blank visible scanned tail ih =>
    have whole := scannedText scanned
    rw [String.toList_ofList] at whole
    rw [whole, List.flatMap_cons, List.append_assoc, ← ih]

theorem cutShaped {offset : Nat} {ps : List Piece} {after : String} (cut : Cut offset cs ps after) :
    ∀ p ∈ ps, p.Shaped := by
  induction cut with
  | nil blank => simp
  | cons blank visible scanned tail ih => exact List.forall_mem_cons.mpr ⟨scannedShaped scanned, ih⟩

theorem visibleBlanks {blanks tail layout body : List Char} {c : Char} (stop : AtEnd tail)
    (gap : Layout layout)
    (whole : blanks ++ tail = layout ++ c :: body) :
    c = '\x7d' ∨ ∃ early, early ⊆ blanks ∧ early ≠ [] ∧ c :: body = early ++ tail := by
  rcases List.append_eq_append_iff.mp whole with ⟨extra, rfl, rest⟩ | ⟨early, rfl, rest⟩
  · rcases stop with rfl | ⟨more, rfl⟩
    · simp at rest
    · cases extra with
      | nil => exact .inl (List.cons.inj rest).1.symm
      | cons d ds =>
        obtain ⟨rfl, -⟩ := List.cons.inj rest
        exact absurd (gap '\x7d' (by simp)) (by decide)
  · cases early with
    | nil =>
      rcases stop with rfl | ⟨more, rfl⟩
      · cases rest
      · exact .inl (List.cons.inj rest).1
    | cons d ds => exact .inr ⟨d :: ds, List.subset_append_right _ _, by simp, rest⟩

theorem blanksFault {blanks tail : List Char} (blank : ∀ c ∈ blanks, isBlank c = true)
    (some : blanks ≠ []) (stop : AtEnd tail) (before : String) (start : Nat) :
    Piece.scan before start (blanks ++ tail) = .error ⟨.missingColon, start⟩ := by
  have plain : plainStart (blanks ++ tail) = true := by
    obtain ⟨c, cs, rfl⟩ := List.exists_cons_of_ne_nil some
    have first := blank c List.mem_cons_self
    refine plainOther ?_ ?_ ?_ ?_ <;> intro rest same <;> obtain ⟨rfl, -⟩ := List.cons.inj same <;>
      exact absurd first (by decide)
  have body : Scan.prelude start 0 (blanks ++ tail) = .ok (blanks, tail) := by
    have run := Scan.State.passesOrdinary 0 fun c inside => Scan.State.blankOrdinary (blank c inside)
    refine Scan.State.preludeComplete start run ?_
    rcases stop with rfl | ⟨more, rfl⟩ <;> rfl
  have noColon : DeclarationText.ofText? blanks = none := by
    cases cut : Text.splitFirst? ':' blanks with
    | none => rw [DeclarationText.ofText?, cut, Option.map_none]
    | some p =>
      have colon := blank ':' (by rw [Text.splitFirstWhole cut]; simp)
      exact absurd colon (by decide)
  have block : ∀ more, tail ≠ '\x7b' :: more := by
    rcases stop with rfl | ⟨more, rfl⟩ <;> simp
  rw [scanPlain plain, statementDeclaration body block, Piece.declaration, noColon]

theorem blanksCut {offset : Nat} {blanks tail : List Char} {ps : List Piece} {after : String}
    (blank : ∀ c ∈ blanks, isBlank c = true) (stop : AtEnd tail)
    (cut : Cut offset (blanks ++ tail) ps after) :
    ps = [] ∨ ∃ before brace more, ps = .close before brace :: more := by
  generalize whole : blanks ++ tail = cs at cut
  cases cut with
  | nil => exact .inl rfl
  | @cons _ layout c body piece rest ps after gap visible scanned behind =>
    have found := scanComplete scanned
    rcases visibleBlanks stop gap whole with rfl | ⟨early, inside, some, same⟩
    · cases found
      exact .inr ⟨_, _, _, rfl⟩
    · rw [same, blanksFault (fun c mem => blank c (inside mem)) some stop] at found
      cases found

theorem cutChain {offset : Nat} {ps : List Piece} {after : String} (cut : Cut offset cs ps after) :
    ps.IsChain Piece.Follows := by
  induction cut with
  | nil blank => exact .nil
  | @cons offset layout c body piece rest ps after blank visible scanned tail ih =>
    match piece, ps, ih with
    | _, [], _ => exact .singleton _
    | .head .., q :: qs, ih => exact .cons_cons trivial ih
    | .close .., q :: qs, ih => exact .cons_cons trivial ih
    | .leaf data first stop, q :: qs, ih =>
      refine .cons_cons ?_ ih
      cases isOpen : data.isOpen with
      | false =>
        cases q with
        | close => trivial
        | leaf => exact isOpen
        | head => exact isOpen
      | true =>
        obtain ⟨blanks, rest, rfl, empty, stop⟩ := scannedOpen scanned isOpen
        obtain none | ⟨_, _, _, same⟩ := blanksCut empty stop tail
        · cases none
        · cases same
          trivial

theorem nestedPrint {index : LineIndex} {fresh last : Nat} {ps : List Piece} {forest : Forest Node}
    (nested : Nested index fresh ps forest last) (chain : ps.IsChain Piece.Follows)
    (shaped : ∀ p ∈ ps, p.Shaped) : forest.print.toList = ps.flatMap Piece.text := by
  induction nested with
  | nil => rfl
  | @leaf fresh data start stop rest next last tail ih =>
    obtain ⟨leaf, others⟩ := List.forall_mem_cons.mp shaped
    have same : data.render next.isEmpty "" = data.render true "" := by
      cases isOpen : data.isOpen with
      | false => exact renderClosed isOpen _ _
      | true =>
        cases tail with
        | nil => rfl
        | leaf =>
          cases chain with
          | cons_cons follows _ => cases isOpen.symm.trans follows
        | block =>
          cases chain with
          | cons_cons follows _ => cases isOpen.symm.trans follows
    have printed : (Forest.cons ⟨fresh, { data with span := some (index.span start stop) }⟩ .nil next).print =
        data.raws.before ++ data.render next.isEmpty "" ++ next.print := rfl
    rw [printed, same, List.flatMap_cons, ← ih chain.tail others, String.toList_append,
      String.toList_append]
    rfl
  | @block fresh data start brace inner after stop rest children middle next last body tail ihb iht =>
    have isBlock : data.kind.isBlock = true := shaped _ List.mem_cons_self
    have closed : (Frame.close ⟨⟨fresh, data⟩, start, brace, []⟩ index after (stop + 1)).data.kind.isBlock =
        true := isBlock
    have chains := chain.tail.right_of_append
    obtain ⟨-, others⟩ := List.forall_mem_cons.mp shaped
    obtain ⟨inside, behind⟩ := List.forall_mem_append.mp others
    rw [Forest.print, renderBlock closed, NodeData.body, List.flatMap_cons, List.flatMap_append,
      List.flatMap_cons, ← ihb chain.tail.left_of_append inside,
      ← iht chains.tail fun p mem => behind p (List.mem_cons_of_mem _ mem)]
    simp [Piece.text, Frame.close, NodeData.heading]

theorem printCut {offset : Nat} {ps : List Piece} {after : String} {index : LineIndex}
    {fresh last : Nat} {sheet : Sheet} (cut : Cut offset cs ps after)
    (nested : Nested index fresh ps sheet.body last) (root : sheet.root = ⟨.root, { after }, none⟩) :
    sheet.print.toList = cs := by
  rw [Sheet.print, String.toList_append, nestedPrint nested (cutChain cut) (cutShaped cut), root]
  exact (cutText cut).symm

theorem parsedPrintsSource {source : String} {sheet : Sheet} (ok : Sheet.parse source = .ok sheet) :
    sheet.print = source := by
  obtain ⟨ps, after, cut, nested, root⟩ := Sheet.parseExact.mp ok
  exact String.toList_inj.mp (printCut cut nested root)

def mixedSource : String :=
  " ;@use 'a' as b ;@m\u00a0(x;y) \x7b.é > #\x7bq\x7d , d\\; \u00a0\x7b//x\x7d\n /*;*/;; w : url(;)" ++
  " ! IMPORTANT\u00a0; v:\"\x7d\" \x7d e:f!important\t\x7d; @k "

theorem parsedPrintsMixed :
    ∃ sheet, Sheet.parse mixedSource = .ok sheet ∧ sheet.print = mixedSource := by
  obtain ⟨sheet, ok⟩ : ∃ sheet, Sheet.parse mixedSource = .ok sheet :=
    Sheet.parses (by decide +kernel)
  exact ⟨sheet, ok, parsedPrintsSource ok⟩

end SheetLint
