import SheetLint.Proofs.Outline
import SheetLint.Proofs.Rereading

/-! The nodes of a sheet that was read are sound, but for a statement that the end of the text has cut
off: it may be inside of brackets, and nothing but blanks can stand behind it. -/
namespace SheetLint
open Text (isBlank trimEnd trailing)
open Scan (State)

structure NodeData.Ends (node : NodeData) (after : List Char) : Prop where
  read : scanMark ((node.render true "").toList ++ after) = some (some node.kind, after)
  shown : ∃ c cs, (node.render true "").toList ++ after = c :: cs ∧ isLayout c = false
  isOpen : node.isOpen = true
  layout : Layout node.raws.before.toList
  blank : ∀ c ∈ after, isBlank c = true

def Piece.Sound : Piece → Prop
  | leaf data _ _ => data.Sound ∧ Layout data.raws.before.toList
  | head data _ _ => data.Sound ∧ Layout data.raws.before.toList
  | close before _ => Layout before.toList

/-! ## One piece -/

variable {before : String} {start : Nat} {cs rest : List Char} {piece : Piece} {c : Char}

theorem trimmedRun {text : List Char} {s : State} (run : (State.start 0).passes text = some s)
    (out : s.outside = true) :
    ∃ t, (State.start 0).passes (trimEnd text) = some t ∧ t.outside = true := by
  rw [← Text.trimEndTrailing text] at run
  exact State.frontOutside (fun c inside => State.blankInert (Text.trailingBlank text c inside)) run out

theorem declarationWording {text : List Char} {d : DeclarationText}
    (parts : DeclarationText.ofText? text = some d) (before : String) (terminated : Bool) :
    (d.data before terminated).wording.toList = if terminated then text else d.core := by
  have printed := declarationRender d before terminated
  rw [renderDeclaration rfl (by rintro ⟨⟩; rfl), String.toList_append] at printed
  cases terminated with
  | true =>
    rw [if_pos rfl, ← declarationWhole parts]
    simpa [NodeData.terminator, DeclarationText.data, ← List.append_assoc] using printed
  | false => simpa [NodeData.terminator, DeclarationText.data] using printed

theorem declarationAfter {text : List Char} {d : DeclarationText}
    (parts : DeclarationText.ofText? text = some d) : ∀ c ∈ d.after, isBlank c = true := by
  obtain ⟨split, -, rfl⟩ := Option.map_eq_some_iff.1 parts
  exact Text.trailingBlank _

theorem corePlain {text more : List Char} {d : DeclarationText}
    (parts : DeclarationText.ofText? text = some d) (plain : plainStart (d.core ++ more) = true)
    (others : List Char) : plainStart (d.core ++ others) = true := by
  obtain ⟨name, rest, -, core, -⟩ := coreParts parts
  rw [core] at plain ⊢
  cases name with
  | nil => rfl
  | cons a name =>
    cases name with
    | nil => exact (plainStartTwo _ _ _ _).trans plain
    | cons b name => exact (plainStartTwo _ _ _ _).trans plain

theorem ruleSound {text : List Char} {s : State} (run : (State.start 0).passes text = some s)
    (out : s.outside = true) (visible : ∀ c ∈ text.head?, isLayout c = false) :
    NodeData.Sound { kind := .rule (.ofList (trimEnd text))
                     raws := { before, between := .ofList (trailing text) } } := by
  refine .rule rfl ?_
  rw [String.toList_ofList, String.toList_ofList]
  refine ⟨Text.trailingBlank text, Text.trimEndLast text, trimmedRun run out, ?_⟩
  rwa [Text.trimEndTrailing]

theorem declarationSound {text more : List Char} {d : DeclarationText} {s : State} {terminated : Bool}
    (parts : DeclarationText.ofText? text = some d) (plain : plainStart (text ++ more) = true)
    (visible : ∀ c ∈ text.head?, isLayout c = false)
    (run : (State.start 0).passes text = some s) (out : s.outside = true)
    (closed : terminated = true → s.stops ';' = true) : (d.data before terminated).Sound := by
  have whole := declarationWhole parts
  have wording := declarationWording parts before terminated
  have blank : ∀ c ∈ d.after, State.inert c = true := fun c inside =>
    State.blankInert (declarationAfter parts c inside)
  have plain' : ∀ more, plainStart (d.core ++ more) = true := by
    rw [← whole, List.append_assoc] at plain
    exact corePlain parts plain
  have visible' : ∀ c ∈ d.core.head?, isLayout c = false := by
    intro c first
    refine visible c ?_
    rw [← whole, List.head?_append, Option.mem_def.mp first]
    rfl
  cases terminated with
  | true =>
    rw [if_pos rfl] at wording
    exact .declaration parts rfl wording (by rintro ⟨⟩) ⟨wording.symm ▸ run, out, fun _ => closed rfl⟩
      plain' visible'
  | false =>
    rw [← whole] at run
    obtain ⟨t, coreRun, coreOut⟩ := State.frontOutside blank run out
    exact .declaration parts rfl wording (fun _ => rfl)
      ⟨wording.symm ▸ coreRun, coreOut, by rintro ⟨⟩⟩ plain' visible'

theorem atRuleSound {n : AtRuleName} {text more : List Char} {s : State} {block ended : Bool}
    (name : AtRuleName.ofText cs = n) (params : n.rest = text ++ more)
    (run : (State.start 0).passes text = some s) (out : s.outside = true)
    (closed : ended = true → s.stops (if block then '\x7b' else ';') = true)
    (always : block = true → ended = true) : (n.data before text block ended).Sound := by
  have wording : (n.data before text block ended).wording.toList =
      if ended then text else trimEnd text := by
    cases ended <;> simp [NodeData.wording, AtRuleName.data]
  have named := namedOfText cs
  rw [name, params] at named
  have trimmed : ∀ c ∈ (String.ofList (trimEnd text)).toList.getLast?, isBlank c = false := by
    rw [String.toList_ofList]
    exact Text.trimEndLast text
  have names : (n.data before text block ended).raws.afterName.toList = n.blanks :=
    String.toList_ofList
  cases ended with
  | true =>
    rw [if_pos rfl] at wording
    refine .atRule rfl ?_ trimmed ?_ ?_ ⟨wording.symm ▸ run, out, ?_⟩ ?_
    · rw [wording, names, String.toList_ofList]
      exact named.front
    · rw [show (n.data before text block true).raws.between = .ofList (trailing text) from rfl,
        String.toList_ofList]
      exact Text.trailingBlank text
    · rintro rfl ⟨⟩
    · cases block with
      | true => rintro ⟨⟩
      | false => exact fun _ => closed rfl
    · rintro rfl
      exact closed rfl
  | false =>
    cases block with
    | true => cases always rfl
    | false =>
      obtain ⟨t, frontRun, frontOut⟩ := trimmedRun run out
      refine .atRule rfl ?_ trimmed (by simp [AtRuleName.data]) (fun _ _ => rfl)
        ⟨wording.symm ▸ frontRun, frontOut, by rintro ⟨⟩⟩ (by rintro ⟨⟩)
      rw [← Text.trimEndTrailing text, List.append_assoc] at named
      rw [wording, names, String.toList_ofList]
      exact named.front

theorem scannedEnds {data : NodeData} {first stop : Nat}
    (scanned : Scanned before start (c :: cs) (.leaf data first stop) rest)
    (same : data.raws.before = before) (isOpen : data.isOpen = true) (layout : Layout before.toList)
    (visible : isLayout c = false) (blank : ∀ d ∈ rest, isBlank d = true) : data.Ends rest := by
  have text := scannedText scanned
  rw [Piece.text, same, List.append_assoc, List.append_cancel_left_eq] at text
  have found := (scanMarkExact before start).mpr ⟨_, scanned, rfl⟩
  rw [text] at found
  exact ⟨found, ⟨c, cs, text.symm, visible⟩, isOpen, same ▸ layout, blank⟩

theorem scannedSound (scanned : Scanned before start (c :: cs) piece rest)
    (blank : Layout before.toList) (visible : isLayout c = false) :
    piece.Sound ∨ ∃ data first stop, piece = .leaf data first stop ∧ data.Ends rest := by
  have ends {data : NodeData} {first stop : Nat} (same : piece = .leaf data first stop) :=
    scannedEnds (same ▸ scanned)
  generalize whole : c :: cs = all at scanned
  -- the first character of a statement that ends before `tail` is the first of the text
  have front {text tail : List Char} (same : all = text ++ tail) :
      ∀ d ∈ text.head?, isLayout d = false := by
    intro d first
    rw [← whole] at same
    cases text with
    | nil => cases first
    | cons e es =>
      obtain ⟨rfl, -⟩ := List.cons.inj same
      cases first
      exact visible
  cases scanned with
  | close rest => exact .inl blank
  | comment closed => exact .inl ⟨.comment rfl (by rwa [String.toList_ofList]), blank⟩
  | line body =>
    refine .inl ⟨.line rfl ?_, blank⟩
    rw [String.toList_ofList]
    intro inside
    simpa using List.mem_takeWhile_imp inside
  | atBlock name params =>
    obtain ⟨split, s, run, stop⟩ := State.preludeExact.mp params
    exact .inl ⟨atRuleSound name split run (State.outsideStop stop).1 (fun _ => stop) (fun _ => rfl), blank⟩
  | atEnded name params =>
    obtain ⟨split, s, run, stop⟩ := State.preludeExact.mp params
    exact .inl ⟨atRuleSound name split run (State.outsideStop stop).1 (fun _ => stop) (by rintro ⟨⟩), blank⟩
  | @atOpen _ _ text _ name params atEnd =>
    obtain ⟨split, s, run, stop⟩ := State.preludeExact.mp params
    rcases atEnd with rfl | ⟨more, rfl⟩
    · refine .inr ⟨_, _, _, rfl, ends rfl rfl rfl blank visible ?_⟩
      rw [List.append_nil]
      exact Text.trailingBlank text
    · exact .inl ⟨atRuleSound name split run (State.outsideStop stop).1 (by rintro ⟨⟩) (by rintro ⟨⟩), blank⟩
  | rule plain head =>
    obtain ⟨split, s, run, stop⟩ := State.preludeExact.mp head
    exact .inl ⟨ruleSound run (State.outsideStop stop).1 (front split), blank⟩
  | ended plain body parts =>
    obtain ⟨split, s, run, stop⟩ := State.preludeExact.mp body
    exact .inl ⟨declarationSound parts (split ▸ plain) (front split) run (State.outsideStop stop).1
      (fun _ => stop), blank⟩
  | opened plain body atEnd parts =>
    obtain ⟨split, s, run, stop⟩ := State.preludeExact.mp body
    rcases atEnd with rfl | ⟨more, rfl⟩
    · refine .inr ⟨_, _, _, rfl, ends rfl rfl rfl blank visible ?_⟩
      rw [List.append_nil]
      exact declarationAfter parts
    · exact .inl ⟨declarationSound parts (split ▸ plain) (front split) run (State.outsideStop stop).1
        (by rintro ⟨⟩), blank⟩

/-! ## Whole sheets -/

theorem blanksOnly {offset : Nat} {ps : List Piece} {after : String}
    (blank : ∀ c ∈ cs, isBlank c = true) (cut : Cut offset cs ps after) : ps = [] ∧ after.toList = cs := by
  have text := cutText cut
  rw [← List.append_nil cs] at cut
  obtain rfl | ⟨before, brace, more, rfl⟩ := blanksCut blank (.inl rfl) cut
  · exact ⟨rfl, text.symm⟩
  · have inside : '\x7d' ∈ cs := by
      rw [text]
      simp [Piece.text]
    exact absurd (blank _ inside) (by decide)

theorem cutSoundPieces {offset : Nat} {ps : List Piece} {after : String} (cut : Cut offset cs ps after) :
    (∀ p ∈ ps, p.Sound) ∨ ∃ qs data first stop, ps = qs ++ [.leaf data first stop] ∧
      (∀ p ∈ qs, p.Sound) ∧ data.Ends after.toList := by
  induction cut with
  | nil blank => exact .inl (by simp)
  | @cons offset layout c body piece rest ps after blank visible scanned tail ih =>
    rcases scannedSound scanned (by rwa [String.toList_ofList]) visible with
      sound | ⟨data, first, stop, rfl, ends⟩
    · rcases ih with others | ⟨qs, data, first, stop, rfl, others, ends⟩
      · exact .inl (List.forall_mem_cons.mpr ⟨sound, others⟩)
      · exact .inr ⟨piece :: qs, data, first, stop, rfl, List.forall_mem_cons.mpr ⟨sound, others⟩, ends⟩
    · obtain ⟨rfl, same⟩ := blanksOnly ends.blank tail
      exact .inr ⟨[], data, first, stop, rfl, by simp, same.symm ▸ ends⟩

theorem cutLayout {offset : Nat} {ps : List Piece} {after : String} (cut : Cut offset cs ps after) :
    Layout after.toList := by
  induction cut with
  | nil blank => rwa [String.toList_ofList]
  | cons _ _ _ _ ih => exact ih

theorem NodeData.Sound.placed {node : NodeData} (sound : node.Sound) (before : String) (span : Option Span) :
    NodeData.Sound { node with raws := { node.raws with before }, span } := by
  cases sound with
  | rule kind heading => exact .rule kind heading
  | comment kind closed => exact .comment kind closed
  | line kind line => exact .line kind line
  | declaration parts kind wording bare stated plain visible =>
    exact .declaration parts kind wording bare ⟨stated.run, stated.out, stated.closed⟩ plain visible
  | atRule kind named trimmed blank bare stated opens =>
    exact .atRule kind named trimmed blank bare ⟨stated.run, stated.out, stated.closed⟩ opens

theorem NodeData.Sound.closed {node : NodeData} (sound : node.Sound) (block : node.kind.isBlock = true)
    (after : String) (span : Option Span) :
    NodeData.Sound { node with raws := { node.raws with after }, span } := by
  cases sound with
  | rule kind heading => exact .rule kind heading
  | comment kind closed => exact .comment kind closed
  | line kind line => exact .line kind line
  | declaration parts kind wording bare stated plain visible =>
    rw [kind] at block
    cases block
  | atRule kind named trimmed blank bare stated opens =>
    have same : NodeData.wording { node with raws := { node.raws with after }, span } = node.wording := by
      rw [NodeData.wording, NodeData.wording, kind]
    exact .atRule kind (same ▸ named) trimmed blank bare ⟨same ▸ stated.run, stated.out, stated.closed⟩ opens

theorem nestedSound {index : LineIndex} {fresh last : Nat} {ps : List Piece} {f : Forest Node}
    (nested : Nested index fresh ps f last) (shaped : ∀ p ∈ ps, p.Shaped)
    (sound : ∀ p ∈ ps, p.Sound) : f.Sound := by
  induction nested with
  | nil => exact .nil
  | leaf tail ih =>
    obtain ⟨shape, shapes⟩ := List.forall_mem_cons.mp shaped
    obtain ⟨first, others⟩ := List.forall_mem_cons.mp sound
    exact .leaf (first.1.placed _ _) shape first.2 (ih shapes others)
  | block body tail ihb iht =>
    obtain ⟨shape, shapes⟩ := List.forall_mem_cons.mp shaped
    obtain ⟨shapesIn, shapesOut⟩ := List.forall_mem_append.mp shapes
    obtain ⟨first, others⟩ := List.forall_mem_cons.mp sound
    obtain ⟨soundIn, soundOut⟩ := List.forall_mem_append.mp others
    obtain ⟨brace, soundNext⟩ := List.forall_mem_cons.mp soundOut
    exact .block (first.1.closed shape _ _) shape first.2 brace (ihb shapesIn soundIn)
      (iht (List.forall_mem_cons.mp shapesOut).2 soundNext)

theorem nestedLast {index : LineIndex} {fresh last : Nat} {qs : List Piece} {f : Forest Node}
    {data : NodeData} {first stop : Nat}
    (nested : Nested index fresh (qs ++ [.leaf data first stop]) f last) :
    ∃ g middle id, Nested index fresh qs g middle ∧
      f = g ++ .cons ⟨id, { data with span := some (index.span first stop) }⟩ .nil .nil := by
  generalize whole : qs ++ [Piece.leaf data first stop] = ps at nested
  induction nested generalizing qs with
  | nil => simp at whole
  | @leaf fresh data' first' stop' rest next last tail ih =>
    cases qs with
    | nil =>
      obtain ⟨same, rfl⟩ := List.cons.inj whole
      cases same
      cases tail
      exact ⟨.nil, _, _, .nil fresh, rfl⟩
    | cons q qs =>
      obtain ⟨rfl, rfl⟩ := List.cons.inj whole
      obtain ⟨g, middle, id, nested, rfl⟩ := ih rfl
      exact ⟨_, middle, id, .leaf nested, rfl⟩
  | @block fresh data' first' brace inner after stop' rest children middle next last body tail ihb iht =>
    cases qs with
    | nil => cases (List.cons.inj whole).1
    | cons q qs =>
      obtain ⟨rfl, behind⟩ := List.cons.inj whole
      rcases List.eq_nil_or_concat rest with rfl | ⟨others, p, rfl⟩
      · obtain ⟨-, same⟩ := List.append_inj' behind rfl
        cases same
      · rw [List.concat_eq_append, ← List.cons_append, ← List.append_assoc] at behind
        obtain ⟨rfl, same⟩ := List.append_inj' behind rfl
        obtain ⟨rfl, -⟩ := List.cons.inj same
        obtain ⟨g, middle', id, nested, rfl⟩ := iht (List.concat_eq_append ..).symm
        exact ⟨_, middle', id, .block body nested, rfl⟩

def Forest.Ends (f : Forest Node) (after : List Char) : Prop :=
  f = .nil ∨ ∃ node, f = .cons node .nil .nil ∧ node.data.Ends after

structure Sheet.Sound (sheet : Sheet) : Prop where
  layout : Layout sheet.root.raws.after.toList
  split : ∃ f e : Forest Node, sheet.body = f ++ e ∧ f.Sound ∧ e.Ends sheet.root.raws.after.toList

theorem parsedSound {source : String} {sheet : Sheet} (ok : Sheet.parse source = .ok sheet) :
    sheet.Sound := by
  obtain ⟨ps, after, cut, nested, root⟩ := Sheet.parseExact.mp ok
  have shaped := cutShaped cut
  refine ⟨by rw [root]; exact cutLayout cut, ?_⟩
  rw [root]
  rcases cutSoundPieces cut with sound | ⟨qs, data, first, stop, rfl, sound, ends⟩
  · exact ⟨sheet.body, .nil, (Forest.appendNil _).symm, nestedSound nested shaped sound, .inl rfl⟩
  · obtain ⟨g, middle, id, front, same⟩ := nestedLast nested
    refine ⟨g, _, same, nestedSound front (List.forall_mem_append.mp shaped).1 sound, .inr ⟨_, rfl, ?_⟩⟩
    exact ⟨ends.read, ends.shown, ends.isOpen, ends.layout, ends.blank⟩

/-! ## A statement at the end -/

variable {e : Forest Node} {after : List Char}

theorem endsLeaf {node : NodeData} (isOpen : node.isOpen = true) : node.kind.isBlock = false := by
  unfold NodeData.isOpen at isOpen
  split at isOpen
  · next kind =>
    rw [kind]
    rfl
  · next block kind =>
    rw [Bool.and_eq_true, Bool.not_eq_true'] at isOpen
    rw [kind]
    exact isOpen.1
  · cases isOpen

theorem endsBlocks (ends : e.Ends after) : e.Blocks := by
  rcases ends with rfl | ⟨node, rfl, ends⟩
  · exact .nil
  · exact .leaf (endsLeaf ends.isOpen) .nil

theorem endsMarks (ends : e.Ends after) (layout : Layout after) :
    marks (e.print.toList ++ after) = some e.marks := by
  rcases ends with rfl | ⟨node, rfl, ends⟩
  · exact marksEnd layout
  · have read := marksReads ends.layout ends.shown ends.read rfl
    rw [Forest.printLeaf, Forest.printNil, List.nil_append, Forest.marks,
      show node.kind.isBlock = false from endsLeaf ends.isOpen]
    exact read.trans (by rw [marksEnd layout]; rfl)

theorem openHolds {node : NodeData} {next : Option Char} (isOpen : node.raws.semicolon = false)
    (blank : ∀ c ∈ next, isBlank c = true) : node.holds true next = true := by
  have other {c : Char} (visible : isBlank c = false) : (next == some c) = false := by
    rw [beq_eq_false_iff_ne]
    rintro rfl
    cases visible.symm.trans (blank c rfl)
  rw [NodeData.holds, isOpen, other (c := ';') (by decide), other (c := '\x7d') (by decide)]
  exact Bool.or_true _

theorem endsLegible (ends : e.Ends after) : e.legible after.head? = true := by
  rcases ends with rfl | ⟨node, rfl, ends⟩
  · rfl
  · have blank : ∀ c ∈ after.head?, isBlank c = true := fun c first =>
      ends.blank c (List.mem_of_head? first)
    have isOpen := ends.isOpen
    unfold NodeData.isOpen at isOpen
    have legible : node.data.legible true after.head? = true := by
      unfold NodeData.legible
      split at isOpen
      · next kind =>
        rw [kind]
        exact openHolds (by simpa using isOpen) blank
      · next block kind =>
        rw [Bool.and_eq_true, Bool.not_eq_true', Bool.not_eq_true'] at isOpen
        rw [kind, isOpen.1]
        exact openHolds isOpen.2 blank
      · cases isOpen
    rw [Forest.legible, Forest.legible, Forest.legible, Forest.printNil, List.head?_nil, Option.none_or,
      Bool.and_true, Bool.and_true]
    exact legible

theorem legibleRereads {sheet : Sheet} (sound : sheet.Sound) (legible : sheet.legible = true) :
    ∃ again, Sheet.parse sheet.print = .ok again ∧ again.body.map Node.kind = sheet.body.map Node.kind := by
  obtain ⟨layout, f, e, body, own, ends⟩ := sound
  have printed : sheet.print.toList = (f ++ e).print.toList ++ sheet.root.raws.after.toList := by
    rw [Sheet.print, String.toList_append, body]
  rw [Sheet.legible, body] at legible
  have read := Forest.readsBack own (fun _ => ⟨_, [], (List.append_nil _).symm, layout, .inl rfl⟩) legible
  rw [endsMarks ends layout, ← printed, Option.map_some, ← Forest.marksAppend] at read
  rw [body]
  exact marksParsed (own.blocks.append (endsBlocks ends)) read

theorem soundRereads {sheet : Sheet} (distinct : sheet.Distinct) (sound : sheet.Sound) :
    (∃ again, Sheet.parse sheet.print = .ok again ∧ again.outline = sheet.outline) ↔
      sheet.legible = true := by
  constructor
  · obtain ⟨layout, f, e, body, own, ends⟩ := sound
    have printed : sheet.print.toList = (f ++ e).print.toList ++ sheet.root.raws.after.toList := by
      rw [Sheet.print, String.toList_append, body]
    rintro ⟨again, ok, same⟩
    obtain ⟨read, blocks⟩ := parsedMarks ok
    have kinds := Sheet.outlineKinds (Sheet.parseDistinct ok) distinct same
    rw [printed] at read
    rw [Sheet.legible, body, ← Bool.not_eq_false]
    intro bad
    refine Forest.misreads own (fun _ => ⟨_, [], (List.append_nil _).symm, layout, .inl rfl⟩)
      (endsLegible ends) bad read ?_
    rw [Forest.marksKinds blocks, kinds, body, Forest.kindsAppend]
    exact List.prefix_append _ _
  · intro legible
    obtain ⟨again, ok, same⟩ := legibleRereads sound legible
    exact ⟨again, ok, Sheet.outlineSame (Sheet.parseDistinct ok) distinct same⟩

end SheetLint
