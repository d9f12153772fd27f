import SheetLint.Proofs.Siblings
import SheetLint.Proofs.SoundSheets

/-! Layout and content of a sheet that was read. What stands between nodes is blanks and stray semicolons,
what stands between the parts of a node is blanks, and the parts themselves are trimmed; a statement that
has no semicolon is the last of its block. -/
namespace SheetLint
open Text (isBlank isAsciiBlank trimEnd trimStart trim leading trailing)

def Blanks (text : List Char) : Prop := ∀ c ∈ text, isBlank c = true

def StartsVisibly (text : List Char) : Prop := ∀ c ∈ text.head?, isBlank c = false

def EndsVisibly (text : List Char) : Prop := ∀ c ∈ text.getLast?, isBlank c = false

def WrittenFlag (text : List Char) : Prop :=
  ∃ front gap word, text = front ++ '!' :: (gap ++ word) ∧ Blanks front ∧ Blanks gap ∧
    Text.sameIgnoringCase word "important".toList = true

namespace NodeData

def Spaced (node : NodeData) : Prop :=
  match node.kind with
  | .root => True
  | .rule selector => EndsVisibly selector.toList ∧ Blanks node.raws.between.toList
  | .declaration _ value important =>
    (∃ front back, node.raws.between.toList = front ++ ':' :: back ∧ Blanks front ∧ Blanks back) ∧
      StartsVisibly value.toList ∧ EndsVisibly value.toList ∧
      (important = true ↔ node.raws.important ≠ "") ∧
      (node.raws.important ≠ "" → WrittenFlag node.raws.important.toList) ∧
      Blanks node.raws.after.toList
  | .atRule _ params _ =>
    (∀ c ∈ node.raws.afterName.toList, isAsciiBlank c = true) ∧ EndsVisibly params.toList ∧
      Blanks node.raws.between.toList
  | .comment _ _ => True

structure Separated (node : NodeData) : Prop where
  before : Layout node.raws.before.toList
  inside : node.isContainer = true → Layout node.raws.after.toList
  spaced : node.Spaced

end NodeData

def Piece.Separated : Piece → Prop
  | leaf data _ _ => data.Separated
  | head data _ _ => data.Separated
  | close before _ => Layout before.toList

/-! ## Declarations -/

theorem endsVisibly {text : List Char} (last : EndsVisibly text) : trimEnd text = text := by
  have same := @Text.trimEndBlanks text [] last (by simp)
  rwa [List.append_nil] at same

theorem flagWritten {value : List Char} (last : EndsVisibly value) (some : (splitImportant value).2 ≠ []) :
    WrittenFlag (splitImportant value).2 := by
  unfold splitImportant at some ⊢
  split
  · next front tail cut =>
    rw [cut] at some
    dsimp only at some
    split
    · next flag =>
      have word : EndsVisibly (trimStart tail) := by
        intro c inside
        refine last c ?_
        rw [Text.splitLastWhole cut, ← Text.leadingTrimStart tail, Option.mem_def,
          List.getLast?_append, List.getLast?_cons, List.getLast?_append, Option.mem_def.mp inside]
        rfl
      refine ⟨trailing front, leading tail, trimStart tail, ?_, Text.trailingBlank front,
        Text.leadingBlank tail, ?_⟩
      · rw [Text.leadingTrimStart]
      · rwa [trim, endsVisibly word] at flag
    · next other => exact absurd (if_neg other ▸ rfl) some
  · next none =>
    rw [none] at some
    exact absurd rfl some

theorem valueTrimmed {value : List Char} (first : StartsVisibly value) (last : EndsVisibly value) :
    StartsVisibly (splitImportant value).1 ∧ EndsVisibly (splitImportant value).1 := by
  constructor
  · intro c inside
    refine first c ?_
    rw [← importantWhole value, List.head?_append, Option.mem_def.mp inside]
    rfl
  · unfold splitImportant
    split
    · split
      · exact Text.trimEndLast _
      · exact last
    · exact last

theorem declarationSpaced {text : List Char} {d : DeclarationText}
    (parts : DeclarationText.ofText? text = some d) (before : String) (terminated : Bool) :
    (d.data before terminated).Spaced := by
  obtain ⟨⟨name, rest⟩, -, rfl⟩ := Option.map_eq_some_iff.mp parts
  have last : EndsVisibly (trimEnd (trimStart rest)) := Text.trimEndLast _
  obtain ⟨starts, ends⟩ := valueTrimmed (writtenHead rest) last
  have flag := flagWritten last
  dsimp only [NodeData.Spaced, DeclarationText.data]
  simp only [String.toList_ofList]
  refine ⟨⟨trailing name, leading rest, rfl, Text.trailingBlank name, Text.leadingBlank rest⟩, starts, ends,
    ?_, ?_, ?_⟩
  · simp
  · simpa using flag
  · cases terminated with
    | true =>
      rw [if_pos rfl, String.toList_ofList]
      exact Text.trailingBlank (trimStart rest)
    | false => simp [Blanks]

/-! ## Pieces -/

variable {before : String} {start : Nat} {cs rest : List Char} {piece : Piece}

theorem noLayout : Layout "".toList := by simp [Layout]

theorem atRuleSpaced {n : AtRuleName} (name : AtRuleName.ofText cs = n) (before : String) (text : List Char)
    (block ended : Bool) : (n.data before text block ended).Spaced := by
  subst name
  dsimp only [NodeData.Spaced, AtRuleName.data]
  rw [String.toList_ofList, String.toList_ofList]
  refine ⟨(namedOfText cs).spaces, Text.trimEndLast text, ?_⟩
  cases ended with
  | true =>
    rw [if_pos rfl, String.toList_ofList]
    exact Text.trailingBlank text
  | false => simp [Blanks]

theorem scannedSeparated (scanned : Scanned before start cs piece rest) (layout : Layout before.toList) :
    piece.Separated := by
  cases scanned with
  | close rest => exact layout
  | comment closed => exact ⟨layout, by rintro ⟨⟩, trivial⟩
  | line body => exact ⟨layout, by rintro ⟨⟩, trivial⟩
  | atBlock name params => exact ⟨layout, fun _ => noLayout, atRuleSpaced name _ _ _ _⟩
  | atEnded name params => exact ⟨layout, by rintro ⟨⟩, atRuleSpaced name _ _ _ _⟩
  | atOpen name params stop => exact ⟨layout, by rintro ⟨⟩, atRuleSpaced name _ _ _ _⟩
  | @rule cs text rest plain head =>
    refine ⟨layout, fun _ => noLayout, ?_⟩
    dsimp only [NodeData.Spaced]
    rw [String.toList_ofList, String.toList_ofList]
    exact ⟨Text.trimEndLast text, Text.trailingBlank text⟩
  | ended plain body parts => exact ⟨layout, by rintro ⟨⟩, declarationSpaced parts _ _⟩
  | opened plain body stop parts => exact ⟨layout, by rintro ⟨⟩, declarationSpaced parts _ _⟩

theorem cutSeparated {offset : Nat} {ps : List Piece} {after : String} (cut : Cut offset cs ps after) :
    ∀ p ∈ ps, p.Separated := by
  induction cut with
  | nil blank => simp
  | cons blank visible scanned tail ih =>
    exact List.forall_mem_cons.mpr ⟨scannedSeparated scanned (by rwa [String.toList_ofList]), ih⟩

/-! ## Sheets -/

theorem NodeData.Separated.closed {node : NodeData} (separated : node.Separated)
    (block : node.kind.isBlock = true) {after : String} (layout : Layout after.toList) (span : Option Span) :
    NodeData.Separated { node with raws := { node.raws with after }, span } := by
  refine ⟨separated.before, fun _ => layout, ?_⟩
  obtain ⟨kind, raws, place⟩ := node
  cases kind with
  | declaration => cases block
  | root | rule | atRule | comment => exact separated.spaced

def Forest.OpenLast : Forest Node → Prop
  | nil => True
  | cons node children next => (node.data.isOpen = true → next = nil) ∧ children.OpenLast ∧ next.OpenLast

theorem Forest.OpenLast.behind {front back : Forest Node} (ordered : (front ++ back).OpenLast) :
    back.OpenLast := by
  induction front with
  | nil => exact ordered
  | cons node children next _ ih => exact ih ordered.2.2

variable {index : LineIndex} {fresh last : Nat} {ps : List Piece} {f : Forest Node}

theorem nestedSeparated (nested : Nested index fresh ps f last) (shaped : ∀ p ∈ ps, p.Shaped)
    (separated : ∀ p ∈ ps, p.Separated) : ∀ node ∈ f.labels, node.data.Separated := by
  induction nested with
  | nil => simp [Forest.labels]
  | leaf tail ih =>
    obtain ⟨-, shapes⟩ := List.forall_mem_cons.mp shaped
    obtain ⟨first, others⟩ := List.forall_mem_cons.mp separated
    exact List.forall_mem_cons.mpr ⟨⟨first.before, first.inside, first.spaced⟩, ih shapes others⟩
  | block body tail ihb iht =>
    obtain ⟨shape, shapes⟩ := List.forall_mem_cons.mp shaped
    obtain ⟨shapesIn, shapesOut⟩ := List.forall_mem_append.mp shapes
    obtain ⟨first, others⟩ := List.forall_mem_cons.mp separated
    obtain ⟨inner, outer⟩ := List.forall_mem_append.mp others
    obtain ⟨brace, behind⟩ := List.forall_mem_cons.mp outer
    refine List.forall_mem_cons.mpr ⟨first.closed shape brace _, ?_⟩
    exact List.forall_mem_append.mpr
      ⟨ihb shapesIn inner, iht (List.forall_mem_cons.mp shapesOut).2 behind⟩

theorem nestedOpenLast (nested : Nested index fresh ps f last) (chain : ps.IsChain Piece.Follows)
    (shaped : ∀ p ∈ ps, p.Shaped) : f.OpenLast := by
  induction nested with
  | nil => trivial
  | leaf tail ih =>
    obtain ⟨-, shapes⟩ := List.forall_mem_cons.mp shaped
    refine ⟨fun isOpen => ?_, trivial, ih chain.tail shapes⟩
    cases tail with
    | nil => rfl
    | leaf =>
      cases chain with
      | cons_cons follows _ => cases Eq.trans isOpen.symm follows
    | block =>
      cases chain with
      | cons_cons follows _ => cases Eq.trans isOpen.symm follows
  | @block fresh data start brace inner after stop rest children middle next last body tail ihb iht =>
    obtain ⟨shape, shapes⟩ := List.forall_mem_cons.mp shaped
    obtain ⟨shapesIn, shapesOut⟩ := List.forall_mem_append.mp shapes
    refine ⟨fun isOpen => ?_, ihb chain.tail.left_of_append shapesIn,
      iht chain.tail.right_of_append.tail (List.forall_mem_cons.mp shapesOut).2⟩
    cases Eq.trans shape.symm (endsLeaf isOpen)

theorem parsedSeparated {source : String} {sheet : Sheet} (ok : Sheet.parse source = .ok sheet) :
    (∀ id data, sheet.get? id = some data → data.Separated) ∧
      ∀ id parent data, sheet.parent? id = some parent → sheet.get? id = some data → data.isOpen = true →
        (sheet.children parent).getLast? = some id := by
  obtain ⟨ps, after, cut, nested, root⟩ := Sheet.parseExact.mp ok
  have distinct := Sheet.parseDistinct ok
  have separated := nestedSeparated nested (cutShaped cut) (cutSeparated cut)
  have ordered := nestedOpenLast nested (cutChain cut) (cutShaped cut)
  constructor
  · intro id data got
    obtain ⟨⟨own, children⟩, found, rfl⟩ := Option.map_eq_some_iff.mp got
    by_cases top : id = Sheet.rootId
    · subst top
      cases found
      rw [root]
      exact ⟨noLayout, fun _ => cutLayout cut, trivial⟩
    · rw [Sheet.findBody sheet top] at found
      exact separated _ (Forest.foundLabel found)
  · intro id parent data child got isOpen
    obtain ⟨above, front, own, children, next, found, below⟩ := distinct.childParts child
    rw [Sheet.get?, below, Option.map_some, Option.some_inj] at got
    subst got
    have inside := Sheet.foundInherits (fun _ _ _ own => own.2) found ordered
    exact (distinct.lastChild found).mpr (inside.behind.1 isOpen)

theorem mixedParses : ∃ sheet, Sheet.parse mixedSource = .ok sheet := Sheet.parses (by decide +kernel)

theorem parsedSeparatedMixed :
    ∃ sheet, Sheet.parse mixedSource = .ok sheet ∧
      (∀ id data, sheet.get? id = some data → data.Separated) ∧
      ∀ id parent data, sheet.parent? id = some parent → sheet.get? id = some data → data.isOpen = true →
        (sheet.children parent).getLast? = some id := by
  obtain ⟨sheet, ok⟩ := mixedParses
  exact ⟨sheet, ok, parsedSeparated ok⟩

end SheetLint
