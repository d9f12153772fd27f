import SheetLint.Proofs.BuiltSheets
import SheetLint.Proofs.ColorHints
import SheetLint.Proofs.CutShort
import SheetLint.Proofs.Places

/-! The semicolon behind the last declaration of a block. With it the declaration owns the blanks behind its
value. Without it they are left to the block, which takes layout only: a blank that is none begins a statement of
its own there, and the text is rejected. -/
namespace SheetLint
open Text (byteSize isBlank isAsciiBlank leading trailing trim trimStart trimEnd)
open Scan (State)

def isPropertyChar (c : Char) : Bool := c.isAlpha || c == '-'

def isReserved (c : Char) : Bool :=
  ['\x7b', '\x7d', '(', ')', ';', '"', '\'', '\\', '/', '#', '!'].contains c

structure PlainDeclaration where
  prop : List Char
  value : List Char
  named : ∀ c ∈ prop, isPropertyChar c = true
  plain : ∀ c ∈ value, isReserved c = false

/-! ## Characters -/

theorem nameVisible {c : Char} (name : isPropertyChar c = true) : isBlank c = false :=
  Text.visibleClass (by decide) name

theorem nameOther {c d : Char} (name : isPropertyChar c = true) (none : isPropertyChar d = false) : c ≠ d :=
  fun same => Bool.false_ne_true (none.symm.trans (same ▸ name))

theorem nameUnreserved {c : Char} (name : isPropertyChar c = true) : isReserved c = false := by
  rw [isReserved, List.contains_eq_mem, decide_eq_false_iff_not]
  intro listed
  have none : isPropertyChar c = false := by
    simp only [List.mem_cons, List.not_mem_nil, or_false] at listed
    rcases listed with rfl | rfl | rfl | rfl | rfl | rfl | rfl | rfl | rfl | rfl | rfl <;> decide
  exact nameOther name none rfl

theorem unreservedOrdinary {c : Char} (plain : isReserved c = false) : State.ordinary c = true ∧ c ≠ '!' := by
  simp only [isReserved, List.contains_cons, List.contains_nil, Bool.or_eq_false_iff, beq_eq_false_iff_ne] at plain
  simp [State.ordinary, Scan.endsStatement, plain]

namespace PlainDeclaration

def text (d : PlainDeclaration) : List Char := d.prop ++ ':' :: d.value

def behind (d : PlainDeclaration) : List Char := trailing (trimStart d.value)

def shown (d : PlainDeclaration) : List Char := d.prop ++ ':' :: (leading d.value ++ trim d.value)

def block (d : PlainDeclaration) (ending : List Char) : List Char :=
  'a' :: '\x7b' :: (d.text ++ (ending ++ ['\x7d']))

def outline (d : PlainDeclaration) : List (Option Kind × Option Nat) :=
  [(some (.rule "a"), some 0), (some (.declaration (.ofList d.prop) (.ofList (trim d.value)) false), some 1)]

def blockFront (d : PlainDeclaration) (blanks : List Char) : List Char := 'a' :: '\x7b' :: (d.shown ++ blanks)

section Reading
variable (d : PlainDeclaration)

theorem shownBehind : d.shown ++ d.behind = d.text := by
  simp [shown, behind, text, trim]

theorem frontSize (blanks : List Char) : byteSize (d.blockFront blanks) = 2 + byteSize d.shown + byteSize blanks := by
  have wide : 'a'.utf8Size = 1 ∧ '\x7b'.utf8Size = 1 := ⟨rfl, rfl⟩
  simp only [blockFront, Text.byteSizeCons, Text.byteSizeAppend, wide]
  omega

theorem behindBlank : ∀ c ∈ d.behind, isBlank c = true := Text.trailingBlank _

/-! ## Reading the declaration -/

theorem textOrdinary : ∀ c ∈ d.text, State.ordinary c = true := by
  refine List.forall_mem_append.mpr ⟨fun c inside => ?_, ?_⟩
  · exact (unreservedOrdinary (nameUnreserved (d.named c inside))).1
  · exact List.forall_mem_cons.mpr ⟨by decide, fun c inside => (unreservedOrdinary (d.plain c inside)).1⟩

theorem textFirst (rest : List Char) :
    ∃ c body, d.text ++ rest = c :: body ∧ isLayout c = false ∧ plainStart (c :: body) = true := by
  cases first : d.prop with
  | nil => exact ⟨':', d.value ++ rest, by simp [text, first], by decide, rfl⟩
  | cons c cs =>
    have name := d.named c (by simp [first])
    refine ⟨c, cs ++ ':' :: d.value ++ rest, by simp [text, first], ?_, ?_⟩
    · rw [isLayout, Bool.or_eq_false_iff, beq_eq_false_iff_ne]
      exact ⟨visibleAscii (nameVisible name), nameOther name (by decide)⟩
    · refine plainOther ?_ ?_ ?_ ?_ <;> intro more same <;>
        exact nameOther name (by decide) (List.cons.inj same).1

theorem textParts :
    DeclarationText.ofText? d.text = some ⟨d.prop, ':' :: leading d.value, trim d.value, [], d.behind⟩ := by
  have free : ∀ c ∈ d.prop, c ≠ ':' := fun c inside => nameOther (d.named c inside) (by decide)
  have flag : splitImportant (trim d.value) = (trim d.value, []) := by
    refine importantMissing fun mark => ?_
    exact (unreservedOrdinary (d.plain '!' (Text.trimMem mark))).2 rfl
  have name : trimEnd d.prop = d.prop :=
    endsVisibly fun c last => nameVisible (d.named c (List.mem_of_getLast? last))
  have none : trailing d.prop = [] := by
    have whole := Text.trimEndTrailing d.prop
    rwa [name, List.append_right_eq_self] at whole
  rw [DeclarationText.ofText?, text, Text.splitFirstFree free, Option.map_some]
  dsimp only
  rw [← trim, flag, name, none]
  rfl

theorem textPrelude {rest : List Char} {c : Char} (start : Nat) (ends : c = ';' ∨ c = '\x7d') :
    Scan.prelude start 0 (d.text ++ c :: rest) = .ok (d.text, c :: rest) := by
  refine State.preludeComplete start (State.passesOrdinary 0 d.textOrdinary) ?_
  rcases ends with same | same <;> subst same <;> rfl

/-! ## The rule around it -/

theorem headScanned (rest : List Char) :
    Scanned (.ofList []) (0 + byteSize []) ('a' :: '\x7b' :: rest) (.head ⟨.rule "a", {}, none⟩ 0 1) rest := by
  have head : Scan.prelude 0 0 (['a'] ++ '\x7b' :: rest) = .ok (['a'], '\x7b' :: rest) :=
    State.preludeComplete 0 (s := .start 0) (by decide) rfl
  exact .rule rfl head

theorem blockPassed {ending rest : List Char} {leaf : NodeData} {stop : Nat}
    (declared : Scanned "" 2 (d.text ++ (ending ++ ['\x7d'])) (.leaf leaf 2 stop) rest) :
    Passed 0 (d.block ending) [.head ⟨.rule "a", {}, none⟩ 0 1, .leaf leaf 2 stop] stop rest := by
  obtain ⟨c, body, first, visible, -⟩ := d.textFirst (ending ++ ['\x7d'])
  rw [first] at declared
  rw [block, first]
  have leaf := @Passed.cons 2 [] c body _ _ _ _ _ noLayout visible declared .nil
  exact @Passed.cons 0 [] 'a' _ _ _ _ _ _ noLayout (by decide) (headScanned _) leaf

theorem blockRead {ending : List Char} {leaf : NodeData} {stop : Nat} (layout : List Char)
    (kind : leaf.kind = .declaration (.ofList d.prop) (.ofList (trim d.value)) false)
    (declared : Scanned "" 2 (d.text ++ (ending ++ ['\x7d'])) (.leaf leaf 2 stop) (layout ++ ['\x7d']))
    (blank : Layout layout) :
    ∃ sheet, Sheet.parse (.ofList (d.block ending)) = .ok sheet ∧ sheet.outline = d.outline := by
  have close : Cut stop (layout ++ ['\x7d']) [.close (.ofList layout) (stop + byteSize layout)] "" :=
    .cons blank (by decide) (.close []) (.nil noLayout)
  have run := passedPieces (d.blockPassed declared)
  rw [cutComplete close, ← String.toList_ofList (l := d.block ending)] at run
  let index := LineIndex.ofText (String.ofList (d.block ending)).toList
  have inner := @Nested.leaf index 2 leaf 2 stop _ _ _ (.nil 3)
  have nested := @Nested.block index 1 ⟨.rule "a", {}, none⟩ 0 1 _ (.ofList layout) (stop + byteSize layout) _ _ _ _ _
    inner (.nil 3)
  refine ⟨⟨⟨.root, {}, none⟩, _, 3⟩, Sheet.parseExact.mpr ⟨_, "", cutSound run, nested, rfl⟩, ?_⟩
  rw [outline, ← kind]
  rfl

theorem blockRejected {leaf : NodeData} {stop : Nat} {blanks more : List Char} {c : Char}
    (declared : Scanned "" 2 (d.text ++ ([] ++ ['\x7d'])) (.leaf leaf 2 stop) (d.behind ++ ['\x7d']))
    (split : d.behind = blanks ++ c :: more) (layout : ∀ b ∈ blanks, isAsciiBlank b = true)
    (other : isAsciiBlank c = false) :
    Sheet.parse (.ofList (d.block [])) =
      .error (Fault.toError ⟨.missingColon, stop + byteSize blanks⟩ (.ofText (d.block []))) := by
  obtain ⟨-, behind⟩ := List.forall_mem_append.mp (split ▸ d.behindBlank)
  have gap : Layout blanks := layoutAscii layout
  have visible : isLayout c = false := by
    rw [isLayout, other, Bool.false_or, beq_eq_false_iff_ne]
    intro same
    exact absurd (behind c List.mem_cons_self) (by rw [same]; decide)
  have fault : pieces stop (d.behind ++ ['\x7d']) = ([], .failed ⟨.missingColon, stop + byteSize blanks⟩) := by
    have begun := blanksFault behind (List.cons_ne_nil c more) (.inr ⟨[], rfl⟩) (.ofList blanks)
      (stop + byteSize blanks)
    rw [split, List.append_assoc, List.cons_append, piecesStep gap visible, ← List.cons_append, begun]
  have run := passedPieces (d.blockPassed declared)
  rw [fault] at run
  rw [Sheet.parse, String.toList_ofList, run]
  rfl

theorem endedScanned :
    ∃ leaf stop, leaf.kind = .declaration (.ofList d.prop) (.ofList (trim d.value)) false ∧
      Scanned "" 2 (d.text ++ ([';'] ++ ['\x7d'])) (.leaf leaf 2 stop) ['\x7d'] := by
  obtain ⟨c, body, first, -, plain⟩ := d.textFirst [';', '\x7d']
  refine ⟨_, _, rfl, .ended (first ▸ plain) (d.textPrelude 2 (.inl rfl)) d.textParts⟩

theorem openScanned :
    ∃ leaf stop, leaf.kind = .declaration (.ofList d.prop) (.ofList (trim d.value)) false ∧
      stop = 2 + byteSize d.shown ∧
      Scanned "" 2 (d.text ++ ([] ++ ['\x7d'])) (.leaf leaf 2 stop) (d.behind ++ ['\x7d']) := by
  obtain ⟨c, body, first, -, plain⟩ := d.textFirst ['\x7d']
  refine ⟨_, _, rfl, ?_, .opened (first ▸ plain) (d.textPrelude 2 (.inr rfl)) (.inr ⟨[], rfl⟩) d.textParts⟩
  simp [DeclarationText.core, shown]

theorem behindSplit : (∀ c ∈ d.behind, isAsciiBlank c = true) ∨
    ∃ blanks c more, d.behind = blanks ++ c :: more ∧ (∀ b ∈ blanks, isAsciiBlank b = true) ∧
      isAsciiBlank c = false := by
  match left : d.behind.dropWhile isAsciiBlank with
  | [] => exact .inl (List.dropWhile_eq_nil_iff.mp left)
  | c :: more =>
    have first := List.head?_dropWhile_not isAsciiBlank d.behind
    rw [left] at first
    refine .inr ⟨d.behind.takeWhile isAsciiBlank, c, more, ?_, fun b => List.mem_takeWhile_imp, first⟩
    rw [← left, List.takeWhile_append_dropWhile]

end Reading

theorem lastSemicolonExact (d : PlainDeclaration) :
    (∃ sheet, Sheet.parse (.ofList (d.block [';'])) = .ok sheet ∧ sheet.outline = d.outline) ∧
    ((∃ sheet, Sheet.parse (.ofList (d.block [])) = .ok sheet ∧ sheet.outline = d.outline) ↔
      ∀ c ∈ d.behind, isAsciiBlank c = true) ∧
    ∀ blanks c more, d.behind = blanks ++ c :: more → (∀ b ∈ blanks, isAsciiBlank b = true) →
      isAsciiBlank c = false →
        Sheet.parse (.ofList (d.block [])) = .error ⟨.missingColon,
          (Position.behind (d.blockFront blanks)).line, (Position.behind (d.blockFront blanks)).column⟩ := by
  obtain ⟨leaf, stop, kind, declared⟩ := d.endedScanned
  obtain ⟨openLeaf, openStop, openKind, size, openDeclared⟩ := d.openScanned
  refine ⟨d.blockRead [] kind declared noLayout, ⟨?_, fun layout => ?_⟩, ?_⟩
  · intro found
    obtain ⟨sheet, ok, -⟩ := found
    rcases d.behindSplit with layout | ⟨blanks, c, more, split, layout, other⟩
    · exact layout
    · rw [d.blockRejected openDeclared split layout other] at ok
      cases ok
  · exact d.blockRead d.behind openKind openDeclared (layoutAscii layout)
  · intro blanks c more split layout other
    have front : d.blockFront blanks <+: d.block [] :=
      ⟨c :: more ++ ['\x7d'], by simp [blockFront, block, ← d.shownBehind, split]⟩
    have place := LineIndex.positionBehind front
    rw [d.frontSize, ← size] at place
    rw [d.blockRejected openDeclared split layout other, Fault.toError, place]

def paddedValue : PlainDeclaration where
  prop := ['-', 'p']
  value := ['\u00a0', ' ', 'x', ':', 'é', '\n']
  named := by simp [isPropertyChar]
  plain := by simp [isReserved]

theorem lastSemicolonExactPadded :
    (∃ sheet, Sheet.parse "a\x7b-p:\u00a0 x:é\n;\x7d" = .ok sheet ∧ sheet.outline = paddedValue.outline) ∧
      ∃ sheet, Sheet.parse "a\x7b-p:\u00a0 x:é\n\x7d" = .ok sheet ∧ sheet.outline = paddedValue.outline := by
  obtain ⟨ended, opened, -⟩ := paddedValue.lastSemicolonExact
  have behind : paddedValue.behind = ['\n'] := by decide
  exact ⟨ended, opened.mpr (by simp [behind, isAsciiBlank])⟩

def wideValue : PlainDeclaration where
  prop := ['p']
  value := ['x', '\u00a0']
  named := by simp [isPropertyChar]
  plain := by simp [isReserved]

theorem wideValueRejected :
    (∃ sheet, Sheet.parse "a\x7bp:x\u00a0;\x7d" = .ok sheet ∧ sheet.outline = wideValue.outline) ∧
      Sheet.parse "a\x7bp:x\u00a0\x7d" = .error ⟨.missingColon, 1, 6⟩ := by
  obtain ⟨leaf, stop, kind, declared⟩ := wideValue.endedScanned
  obtain ⟨openLeaf, openStop, -, size, openDeclared⟩ := wideValue.openScanned
  subst size
  have behind : wideValue.behind = [] ++ '\u00a0' :: [] := by decide
  have read := wideValue.blockRead [] kind declared noLayout
  exact ⟨read, wideValue.blockRejected openDeclared behind (by simp) (by decide)⟩

end PlainDeclaration
end SheetLint
