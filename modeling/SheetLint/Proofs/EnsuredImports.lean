import SheetLint.Proofs.ColorHints
import SheetLint.Proofs.ReboundAliases
import SheetLint.Proofs.SoundSheets

/-! Directives that were added can be read back. The text of each gives its alias and its module, and a
directive ends with its own semicolon, whatever follows. So the table that was kept while directives were
added is the one that the sheet gives, and the one that its print gives. -/
namespace SheetLint
open Text (isBlank trim trimStart)
open Scan (State)

namespace ImportTable

def isAliasChar (c : Char) : Bool := c.isAlphanum || c == '-' || c == '_'

structure Plain (entry : String × String) : Prop where
  named : entry.1 ≠ ""
  word : ∀ c ∈ entry.1.toList, isAliasChar c = true
  given : entry.2 ≠ ""
  unquoted : ∀ c ∈ entry.2.toList, c ≠ '\'' ∧ c ≠ '\\'

theorem plainAll {entry : String × String} :
    (entry.1 ≠ "" ∧ entry.1.toList.all isAliasChar ∧ entry.2 ≠ "" ∧
      entry.2.toList.all fun c => c != '\'' && c != '\\') ↔ Plain entry := by
  simp only [List.all_eq_true, Bool.and_eq_true, bne_iff_ne]
  exact ⟨fun ⟨named, word, given, unquoted⟩ => ⟨named, word, given, unquoted⟩,
    fun plain => ⟨plain.named, plain.word, plain.given, plain.unquoted⟩⟩

instance (entry : String × String) : Decidable (Plain entry) := decidable_of_iff _ plainAll

theorem aliasVisible {c : Char} (word : isAliasChar c = true) : isBlank c = false :=
  Text.visibleClass (by decide) word

theorem aliasOrdinary {c : Char} (word : isAliasChar c = true) : State.ordinary c = true := by
  rw [State.ordinary, Scan.endsStatement, Bool.not_eq_true', Bool.eq_false_iff]
  intro special
  simp only [Bool.or_eq_true, beq_iff_eq] at special
  rcases special with ((((((rfl | rfl) | rfl) | rfl) | rfl) | rfl) | rfl) | ((rfl | rfl) | rfl) <;>
    exact absurd word (by decide)

/-! ## The text of a directive -/

section Text
variable {name source : String}

theorem directiveText (name source : String) :
    ("'" ++ source ++ "' as " ++ name).toList =
      '\'' :: (source.toList ++ '\'' :: ' ' :: 'a' :: 's' :: ' ' :: name.toList) := by
  simp

theorem aliasGiven {word : List Char} (some : word ≠ []) (visible : ∀ c ∈ word, isBlank c = false) :
    givenAlias? (' ' :: 'a' :: 's' :: ' ' :: word) = .some word := by
  have front : trimStart (' ' :: word) = word := by
    rw [Text.trimStart, List.dropWhile_cons_of_pos (by decide)]
    exact Text.trimStartVisible fun c first => visible c (List.mem_of_head? first)
  have trimmed : trim (' ' :: word) = word := by
    have back := @Text.trimEndBlanks word [] (fun c last => visible c (List.mem_of_getLast? last)) (by simp)
    rwa [List.append_nil, ← front, ← Text.trim, front] at back
  have solid : word.any isBlank = false := List.any_eq_false.mpr fun c inside => by simp [visible c inside]
  have whole : trimStart (' ' :: 'a' :: 's' :: ' ' :: word) = 'a' :: 's' :: ' ' :: word := rfl
  rw [givenAlias?, whole]
  simp [trimmed, solid, some]

theorem directiveRead (plain : Plain (name, source)) :
    parseUse? ("'" ++ source ++ "' as " ++ name) = some (name, source) := by
  obtain ⟨named, word, given, unquoted⟩ := plain
  have quoted : quotedModule? (trimStart ("'" ++ source ++ "' as " ++ name).toList) =
      some (source.toList, ' ' :: 'a' :: 's' :: ' ' :: name.toList) := by
    rw [directiveText, trimStart, List.dropWhile_cons_of_neg (by decide), quotedModule?, if_pos (by decide),
      Text.splitFirstFree fun c inside => (unquoted c inside).1]
    simpa using given
  have bound := @aliasGiven name.toList (by simpa using named) fun c inside => aliasVisible (word c inside)
  have behind : (trimStart (' ' :: 'a' :: 's' :: ' ' :: name.toList)).isEmpty = false := rfl
  simp only [parseUse?, quoted, bound, behind, Option.bind_eq_bind, Option.bind_some, Bool.false_eq_true,
    if_false, Option.pure_def, String.ofList_toList]

theorem passesQuoted {quote : Char} {text : List Char} (free : ∀ c ∈ text, c ≠ quote ∧ c ≠ '\\') (depth : Nat) :
    State.passes ⟨.quoted quote, depth⟩ text = some ⟨.quoted quote, depth⟩ := by
  induction text with
  | nil => rfl
  | cons c cs ih =>
    obtain ⟨first, others⟩ := List.forall_mem_cons.mp free
    rw [State.passesCons (by simp [State.stops])]
    simpa [State.step, first] using ih others

theorem directivePassed (plain : Plain (name, source)) :
    (State.start 0).passes ("'" ++ source ++ "' as " ++ name).toList = some (State.start 0) := by
  have behind : ∀ c ∈ ' ' :: 'a' :: 's' :: ' ' :: name.toList, State.ordinary c = true := by
    simp only [List.forall_mem_cons]
    exact ⟨by decide, by decide, by decide, by decide, fun c inside => aliasOrdinary (plain.word c inside)⟩
  rw [directiveText, State.passesCons (by decide), State.passesAppend]
  change (State.passes ⟨.quoted '\'', 0⟩ source.toList).bind _ = _
  rw [passesQuoted plain.unquoted, Option.bind_some, State.passesCons (by decide)]
  exact State.passesOrdinary 0 behind

end Text

/-! ## Directives in print -/

theorem directiveWording (name source before : String) :
    ((directive name source).withBefore before).wording.toList = ("'" ++ source ++ "' as " ++ name).toList :=
  congrArg String.toList String.append_empty

theorem directiveSound {entry : String × String} (plain : Plain entry) (before : String) :
    ((directive entry.1 entry.2).withBefore before).Sound := by
  obtain ⟨name, source⟩ := entry
  have wording := directiveWording name source before
  have apart : ((directive name source).withBefore before).raws.afterName = " " := by
    simp [directive, NodeData.withBefore, NodeData.atRule]
  have named : name.toList ≠ [] := by simpa using plain.named
  have bare : ((directive name source).withBefore before).raws.between = "" := rfl
  refine .atRule rfl ⟨by simp [endsName, Text.isAsciiBlank], ?_, ?_, ?_⟩ ?_ (by simp [bare])
    (by rintro - ⟨⟩) ⟨wording ▸ directivePassed plain, rfl, fun _ => rfl⟩ (by rintro ⟨⟩)
  · rw [apart]
    simp [Text.isAsciiBlank]
  · rw [wording, directiveText]
    simp [Text.isAsciiBlank]
  · rw [apart]
    rintro ⟨⟩
  · intro c last
    rw [String.toList_append, List.getLast?_append_of_ne_nil _ named] at last
    exact aliasVisible (plain.word c (List.mem_of_getLast? last))

theorem directiveLegible {entry : String × String} (plain : Plain entry) (before : String) (last : Bool)
    (next : Option Char) : ((directive entry.1 entry.2).withBefore before).legible last next = true := by
  obtain ⟨name, source⟩ := entry
  have free : Scan.dangling ("'" ++ source ++ "' as " ++ name).toList ≠ some '\\' := fun held =>
    absurd ((Scan.danglingExact (directivePassed plain) rfl).1.mp held) (by decide)
  change NodeData.holds _ last next = true
  rw [NodeData.holds, directiveWording, bne_iff_ne.mpr free, Bool.true_or]

theorem endedLegible {node : Node} {last last' : Bool} {next next' : Option Char}
    (directive : isUse node = true) (ended : node.data.raws.semicolon = true)
    (legible : node.data.legible last next = true) : node.data.legible last' next' = true := by
  rw [isUse, NodeData.isAtRuleNamed] at directive
  split at directive
  · next name params block kind =>
    unfold NodeData.legible at legible ⊢
    rw [kind] at legible ⊢
    cases block with
    | true => rfl
    | false => simpa [NodeData.holds, ended] using legible
  · cases directive

theorem endsUnterminated {node : Node} {after : List Char} (ends : node.data.Ends after) :
    node.data.raws.semicolon = false := by
  have isOpen := ends.isOpen
  unfold NodeData.isOpen at isOpen
  split at isOpen
  · simpa using isOpen
  · rw [Bool.and_eq_true, Bool.not_eq_true', Bool.not_eq_true'] at isOpen
    exact isOpen.2
  · cases isOpen

end ImportTable

namespace Forest
open ImportTable (isUse)
variable {f g front back : Forest Node} {after : List Char} {follow : Option Char}

def SoundTo (after : List Char) (f : Forest Node) : Prop := ∃ g e, f = g ++ e ∧ g.Sound ∧ e.Ends after

def Closed : Forest Node → Prop
  | nil => True
  | cons node children next =>
    (∀ last follow, node.data.legible last follow = true) ∧
      children.legible (node.data.raws.after.toList ++ ['\x7d']).head? = true ∧ next.Closed

theorem Closed.append (closed : f.Closed) (more : g.Closed) : (f ++ g).Closed := by
  induction f with
  | nil => exact more
  | cons node children next _ ih => exact ⟨closed.1, closed.2.1, ih closed.2.2⟩

theorem Closed.legible (closed : f.Closed) (more : g.legible follow = true) :
    (f ++ g).legible follow = true := by
  induction f with
  | nil => exact more
  | cons node children next _ ih =>
    rw [consAppend, Forest.legible, closed.1, closed.2.1, ih closed.2.2]
    rfl

theorem closedFront (ended : ∀ node ∈ front.roots, isUse node = true ∧ node.data.raws.semicolon = true)
    (legible : (front ++ back).legible follow = true) : front.Closed ∧ back.legible follow = true := by
  induction front with
  | nil => exact ⟨trivial, legible⟩
  | cons node children next _ ih =>
    obtain ⟨own, others⟩ := List.forall_mem_cons.mp ended
    rw [consAppend, Forest.legible, Bool.and_eq_true, Bool.and_eq_true] at legible
    obtain ⟨⟨here, within⟩, behind⟩ := legible
    obtain ⟨closed, rest⟩ := ih others behind
    exact ⟨⟨fun last follow => ImportTable.endedLegible own.1 own.2 here, within, closed⟩, rest⟩

theorem SoundTo.behind (sound : f.Sound) (rest : back.SoundTo after) : (f ++ back).SoundTo after := by
  obtain ⟨g, e, rfl, own, ends⟩ := rest
  exact ⟨f ++ g, e, (appendAssoc f g e).symm, sound.append own, ends⟩

theorem soundFront (ended : ∀ node ∈ front.roots, node.data.raws.semicolon = true)
    (sound : (front ++ back).SoundTo after) : front.Sound ∧ back.SoundTo after := by
  induction front with
  | nil => exact ⟨.nil, sound⟩
  | cons node children next _ ih =>
    obtain ⟨own, others⟩ := List.forall_mem_cons.mp ended
    obtain ⟨g, e, whole, sound, ends⟩ := sound
    rw [consAppend] at whole
    cases sound with
    | nil =>
      -- the statement that ends with the text has no semicolon
      rcases ends with rfl | ⟨last, rfl, ends⟩
      · cases whole
      · obtain ⟨rfl, -, -⟩ := Forest.cons.inj whole
        cases own.symm.trans (ImportTable.endsUnterminated ends)
    | leaf sound plain blank tail =>
      obtain ⟨rfl, rfl, same⟩ := Forest.cons.inj whole
      obtain ⟨behind, rest⟩ := ih others ⟨_, e, same, tail, ends⟩
      exact ⟨.leaf sound plain blank behind, rest⟩
    | block sound block blank inside body tail =>
      obtain ⟨rfl, rfl, same⟩ := Forest.cons.inj whole
      obtain ⟨behind, rest⟩ := ih others ⟨_, e, same, tail, ends⟩
      exact ⟨.block sound block blank inside body behind, rest⟩

/-! ## The first node -/

theorem SoundTo.layout (sound : f.SoundTo after) :
    ∀ node ∈ f.roots.head?, Layout node.data.raws.before.toList := by
  obtain ⟨g, e, rfl, sound, ends⟩ := sound
  cases sound with
  | nil =>
    rcases ends with rfl | ⟨last, rfl, ends⟩
    · simp [roots]
    · simpa [roots] using ends.layout
  | leaf _ _ blank _ => simpa [roots] using blank
  | block _ _ blank _ _ _ => simpa [roots] using blank

theorem SoundTo.moved (sound : f.SoundTo after) {before : String} (layout : Layout before.toList) :
    (f.mapFirst (·.withBefore before)).SoundTo after := by
  obtain ⟨g, e, rfl, sound, ends⟩ := sound
  cases sound with
  | nil =>
    rcases ends with rfl | ⟨last, rfl, ends⟩
    · exact ⟨.nil, .nil, rfl, .nil, .inl rfl⟩
    · exact ⟨.nil, _, rfl, .nil, .inr ⟨_, rfl, ends.read, ends.shown, ends.isOpen, layout, ends.blank⟩⟩
  | @leaf node next sound plain _ tail =>
    exact ⟨.cons ⟨node.id, node.data.withBefore before⟩ .nil next, e, rfl,
      .leaf (sound.placed before _) plain layout tail, ends⟩
  | @block node children next sound block _ inside body tail =>
    exact ⟨.cons ⟨node.id, node.data.withBefore before⟩ children next, e, rfl,
      .block (sound.placed before _) block layout inside body tail, ends⟩

theorem rootsMap {α β : Type} (change : α → β) (f : Forest α) : (f.map change).roots = f.roots.map change := by
  induction f with
  | nil => rfl
  | cons a children next _ ih => rw [map, roots, roots, ih, List.map_cons]

theorem legibleMoved (f : Forest Node) (before : String) (follow : Option Char) :
    (f.mapFirst (·.withBefore before)).legible follow = f.legible follow := by
  cases f <;> rfl

end Forest

namespace ImportTable
open Forest

/-! ## Slots -/

structure Slot.Printable (slot : Slot) (after : List Char) : Prop where
  sound : slot.front.Sound
  closed : slot.front.Closed
  rest : slot.back.SoundTo after
  legible : slot.back.legible after.head? = true

theorem lineLayout {node : NodeData} (layout : Layout node.raws.before.toList) :
    Layout (ontoNewLine node).raws.before.toList := by
  rw [ontoNewLine]
  split
  · exact layout
  · intro c inside
    rw [NodeData.withBefore, String.toList_append, List.mem_append] at inside
    rcases inside with line | old
    · rw [List.mem_singleton.mp line]
      rfl
    · rw [String.toList_ofList] at old
      exact layout c (List.dropWhile_subset _ old)

namespace Slot
variable {slot : Slot} {after : List Char} {root : NodeData}

theorem gapLayout (rest : slot.back.SoundTo after) : Layout slot.gap.toList := by
  rw [gap]
  split
  · simp [Layout]
  · cases first : (slot.back.roots.head?.map fun node => node.data.raws.before).filter hasNewline with
    | none => simp [Layout, isLayout, Text.isAsciiBlank]
    | some before =>
      obtain ⟨listed, -⟩ := Option.filter_eq_some_iff.mp first
      obtain ⟨node, head, rfl⟩ := Option.map_eq_some_iff.mp listed
      exact rest.layout node head

theorem movedBack (rest : slot.back.SoundTo after) (legible : slot.back.legible after.head? = true) :
    (slot.back.mapFirst ontoNewLine).SoundTo after ∧
      (slot.back.mapFirst ontoNewLine).legible after.head? = true := by
  cases parts : slot.back with
  | nil => exact ⟨⟨.nil, .nil, rfl, .nil, .inl rfl⟩, rfl⟩
  | cons node children next =>
    rw [parts] at rest legible
    have line : (Forest.cons node children next).mapFirst ontoNewLine =
        (Forest.cons node children next).mapFirst (·.withBefore (ontoNewLine node.data).raws.before) := by
      rw [mapFirst, mapFirst, ← lineBefore]
    rw [line, legibleMoved]
    exact ⟨rest.moved (lineLayout (rest.layout node rfl)), legible⟩

theorem insertPrintable (printable : slot.Printable after) {entry : String × String} (plain : Plain entry) :
    (slot.insert entry).Printable after := by
  obtain ⟨sound, closed, rest, legible⟩ := printable
  have own : (leaves [⟨slot.fresh, (directive entry.1 entry.2).withBefore slot.gap⟩]).Sound :=
    .leaf (directiveSound plain _) rfl (gapLayout rest) .nil
  have moved := movedBack rest legible
  refine ⟨sound.append own, closed.append ⟨directiveLegible plain _, rfl, trivial⟩, ?_, ?_⟩
  · rw [insert]
    split
    · exact moved.1
    · exact rest
  · rw [insert]
    split
    · exact moved.2
    · exact legible

theorem insertsPrintable (printable : slot.Printable after) {entries : Uses}
    (plain : ∀ entry ∈ entries, Plain entry) : (slot.inserts entries).Printable after := by
  induction entries generalizing slot with
  | nil => exact printable
  | cons entry rest ih =>
    obtain ⟨own, others⟩ := List.forall_mem_cons.mp plain
    exact ih (insertPrintable printable own) others

theorem printableRereads (layout : Layout root.raws.after.toList)
    (printable : slot.Printable root.raws.after.toList) :
    ∃ again, Sheet.parse (slot.sheet root).print = .ok again ∧
      again.body.map Node.kind = (slot.sheet root).body.map Node.kind :=
  legibleRereads ⟨layout, printable.rest.behind printable.sound⟩ (printable.closed.legible printable.legible)

end Slot

theorem parsedLegible {source : String} {sheet : Sheet} (ok : Sheet.parse source = .ok sheet) :
    sheet.legible = true := by
  obtain ⟨ps, after, cut, nested, root⟩ := Sheet.parseExact.mp ok
  have printed : sheet.print = source := String.toList_inj.mp (printCut cut nested root)
  exact (soundRereads (Sheet.parseDistinct ok) (parsedSound ok)).mp ⟨sheet, printed ▸ ok, rfl⟩

theorem parsedPrintable {source : String} {root : NodeData} {slot : Slot}
    (ok : Sheet.parse source = .ok (slot.sheet root))
    (ended : ∀ node ∈ slot.front.roots, isUse node = true ∧ node.data.raws.semicolon = true) :
    slot.Printable root.raws.after.toList := by
  obtain ⟨sound, rest⟩ := soundFront (fun node listed => (ended node listed).2) (parsedSound ok).split
  obtain ⟨closed, legible⟩ := closedFront ended (parsedLegible ok)
  exact ⟨sound, closed, rest, legible⟩

/-! ## The table of a sheet -/

def bound? : Kind → Option (String × String)
  | .atRule name params _ => if Text.sameIgnoringCase name.toList "use".toList then parseUse? params else none
  | _ => none

theorem bindingsKinds (nodes : List Node) :
    bindings nodes = record [] ((nodes.map Node.kind).filterMap bound?) := by
  have same (node : Node) : (if isUse node = true then node.data.params?.bind parseUse? else none) =
      bound? node.kind := by
    rw [isUse, NodeData.isAtRuleNamed, NodeData.params?, Node.kind]
    cases node.data.kind <;> rfl
  rw [bindings, List.filterMap_filter, List.filterMap_map]
  simp only [same]
  rfl

theorem boundNone {nodes : List Node} (others : ∀ node ∈ nodes, isUse node = false) :
    (nodes.map Node.kind).filterMap bound? = [] := by
  rw [List.filterMap_map, List.filterMap_eq_nil_iff]
  intro node listed
  have other := others node listed
  rw [isUse, NodeData.isAtRuleNamed] at other
  change bound? node.data.kind = none
  cases kind : node.data.kind with
  | atRule name params block =>
    rw [kind] at other
    exact if_neg (Bool.eq_false_iff.mp other)
  | _ => rfl

theorem boundDirectives {entries : Uses} (plain : ∀ entry ∈ entries, Plain entry) :
    (entries.map fun entry => (directive entry.1 entry.2).kind).filterMap bound? = entries := by
  rw [List.filterMap_map]
  refine (List.filterMap_congr fun entry listed => ?_).trans List.filterMap_some
  exact directiveRead (plain entry listed)

/-! ## Requirements -/

theorem sourcesKeyed {required : Uses} (keyed : (required.map Prod.fst).Nodup) {name source : String}
    (listed : (name, source) ∈ required) : sourcesOf name required = [source] := by
  induction required with
  | nil => cases listed
  | cons entry rest ih =>
    obtain ⟨absent, keyed⟩ := List.nodup_cons.mp keyed
    rcases List.mem_cons.mp listed with rfl | later
    · rw [sourcesOwn, sourcesAbsent absent]
    · have differs : entry.1 ≠ name := fun same =>
        absent (same ▸ List.mem_map_of_mem (f := Prod.fst) later)
      rw [← ih keyed later]
      exact sourcesOther differs entry.2 rest

theorem unmetRecorded {required : Uses} (keyed : (required.map Prod.fst).Nodup) (uses : Uses) :
    unmet (record uses (unmet uses required)) required = [] := by
  refine List.filter_eq_nil_iff.mpr fun entry listed => ?_
  have met : (record uses (unmet uses required)).lookup entry.1 = some entry.2 := by
    rw [lookupRecord, unmetSources keyed, sourcesKeyed keyed listed, changes, changes]
    split
    · next bound => exact bound
    · rfl
  simp [met]

theorem demandedPlain {requirements : List Uses}
    (plain : ∀ required ∈ requirements, ∀ entry ∈ required, Plain entry) (uses : Uses) : ∀ entry ∈ demanded uses requirements, Plain entry := by
  induction requirements generalizing uses with
  | nil => simp [demanded]
  | cons required rest ih =>
    obtain ⟨own, others⟩ := List.forall_mem_cons.mp plain
    rw [demanded, List.forall_mem_append]
    exact ⟨fun entry listed => own entry (List.mem_of_mem_filter listed), ih others _⟩

theorem lastMet {requirements : List Uses} {required : Uses} (last : required ∈ requirements.getLast?)
    (keyed : (required.map Prod.fst).Nodup) (uses : Uses) :
    unmet (record uses (demanded uses requirements)) required = [] := by
  obtain ⟨earlier, rfl⟩ := List.getLast?_eq_some_iff.mp last
  rw [demandedAppend, recordAppend, demanded, demanded, List.append_nil]
  exact unmetRecorded keyed _

theorem ensureMet {table : ImportTable} {required : Uses} (met : table.missing required = []) (sheet : Sheet) :
    table.ensure sheet required = (table, sheet) := by
  rw [ensure, met]
  rfl

/-! ## Directives in front -/

theorem othersBehind {front back : Forest Node}
    (leading : (front ++ back).roots.Pairwise fun a b => isUse b = true → isUse a = true)
    (first : ∀ node ∈ back.roots.head?, isUse node = false) : ∀ node ∈ back.roots, isUse node = false := by
  rw [rootsAppend] at leading
  have later := (List.pairwise_append.mp leading).2.1
  cases back with
  | nil => simp [roots]
  | cons node children next =>
    have own : isUse node = false := first node rfl
    rw [roots, List.pairwise_cons] at later
    refine List.forall_mem_cons.mpr ⟨own, fun other listed => ?_⟩
    rw [Bool.eq_false_iff]
    intro directive
    cases own.symm.trans (later.1 other listed directive)

theorem insertsKinds (slot : Slot) (entries : Uses) :
    ((slot.inserts entries).front ++ (slot.inserts entries).back).roots.map Node.kind =
      slot.front.roots.map Node.kind ++ (entries.map (fun entry => (directive entry.1 entry.2).kind) ++
        slot.back.roots.map Node.kind) := by
  obtain ⟨behind, added, body, -, data, back⟩ := slot.insertsBody entries
  have kept : behind.roots.map Node.kind = slot.back.roots.map Node.kind := by
    rcases back with rfl | ⟨-, before, rfl⟩
    · rfl
    · cases slot.back <;> rfl
  have kinds : added.map Node.kind = entries.map fun entry => (directive entry.1 entry.2).kind := by
    have shown := congrArg (List.map NodeData.kind) data
    rwa [List.map_map, List.map_map] at shown
  rw [body, rootsAppend, rootsAppend, leavesRoots, List.map_append, List.map_append, kinds, kept]

theorem bindingsInserted {slot : Slot} {entries : Uses} (plain : ∀ entry ∈ entries, Plain entry)
    (others : ∀ node ∈ slot.back.roots, isUse node = false) (root : NodeData) :
    bindings ((slot.inserts entries).sheet root).body.roots =
      record (bindings (slot.sheet root).body.roots) entries := by
  rw [bindingsKinds, bindingsKinds, Slot.sheet, insertsKinds, Slot.sheet, rootsAppend, List.map_append]
  simp only [List.filterMap_append, boundNone others, boundDirectives plain, List.append_nil, recordAppend]

theorem scanKinds {sheet again : Sheet} (same : again.body.map Node.kind = sheet.body.map Node.kind) :
    (scan again).uses = (scan sheet).uses := by
  have kinds := congrArg roots same
  rw [rootsMap, rootsMap] at kinds
  rw [scan, scan, bindingsKinds, bindingsKinds, kinds]

theorem ensuredImportsReread {source : String} {sheet : Sheet} (ok : Sheet.parse source = .ok sheet)
    (leading : sheet.body.roots.Pairwise fun a b => isUse b = true → isUse a = true)
    (ended : ∀ node ∈ sheet.body.roots, isUse node = true → node.data.raws.semicolon = true)
    {requirements : List Uses} (keyed : ∀ required ∈ requirements, (required.map Prod.fst).Nodup)
    (plain : ∀ required ∈ requirements, ∀ entry ∈ required, Plain entry) :
    ∃ table result, ensureAll (scan sheet) sheet requirements = (table, result) ∧
      result.root = sheet.root ∧
      (∃ front back behind added, sheet.body = front ++ back ∧
        (∀ node ∈ front.roots, isUse node = true) ∧ (∀ node ∈ back.roots, isUse node = false) ∧
        result.body = front ++ (leaves added ++ behind) ∧
        added.map Node.id = List.range' sheet.fresh added.length ∧
        added.map (fun node => node.data.withBefore "") =
          (demanded (scan sheet).uses requirements).map (fun entry => directive entry.1 entry.2) ∧
        (behind = back ∨ front = .nil ∧ ∃ before, behind = back.mapFirst (·.withBefore before))) ∧
      (∀ required ∈ requirements.getLast?,
        table.missing required = [] ∧ table.ensure result required = (table, result)) ∧
      (scan result).uses = table.uses ∧
      ∃ again, Sheet.parse result.print = .ok again ∧ (scan again).uses = table.uses := by
  obtain ⟨-, after, -, -, root⟩ := Sheet.parseExact.mp ok
  have container : sheet.root.isContainer = true := by rw [root]; rfl
  have distinct := Sheet.parseDistinct ok
  have layout := (parsedSound ok).layout
  obtain ⟨slot, parts, scanned, uses, first⟩ := scanSlot sheet
  generalize sheet.root = top at parts container layout
  subst parts
  have others : ∀ node ∈ slot.back.roots, isUse node = false := othersBehind leading first
  have printable : slot.Printable top.raws.after.toList := by
    refine parsedPrintable ok fun node listed => ⟨uses node listed, ended node ?_ (uses node listed)⟩
    rw [Slot.sheet, rootsAppend]
    exact List.mem_append_left _ listed
  have added := ensureAllPlaced distinct container (bindings (slot.sheet top).body.roots) requirements
  rw [← scanned] at added
  have words := demandedPlain plain (bindings (slot.sheet top).body.roots)
  have table := bindingsInserted words others top
  obtain ⟨again, reread, same⟩ := Slot.printableRereads layout (Slot.insertsPrintable printable words)
  refine ⟨_, _, added, rfl, ?_, fun required last => ?_, table, again, reread, (scanKinds same).trans table⟩
  · obtain ⟨behind, nodes, body, ids, data, back⟩ :=
      slot.insertsBody (demanded (bindings (slot.sheet top).body.roots) requirements)
    exact ⟨slot.front, slot.back, behind, nodes, rfl, uses, others, body, ids, data, back⟩
  · have met := lastMet last (keyed required (List.mem_of_getLast? last)) (bindings (slot.sheet top).body.roots)
    refine ⟨met, ensureMet ?_ _⟩
    exact met

def reboundSource : String := "@use 'm/a' as foo; .a \x7b p: q \x7d"

def reboundRequirements : List Uses := [[("bar", "m/x"), ("foo", "m/b")], [("foo", "m/a")]]

def reboundText : String :=
  "@use 'm/a' as foo;\n@use 'm/x' as bar;\n@use 'm/b' as foo;\n@use 'm/a' as foo; .a \x7b p: q \x7d"

theorem ensuredImportsRereadRebound :
    ∃ sheet again, Sheet.parse reboundSource = .ok sheet ∧
      (ensureAll (scan sheet) sheet reboundRequirements).2.print = reboundText ∧
      Sheet.parse reboundText = .ok again ∧ (scan again).uses = [("bar", "m/x"), ("foo", "m/a")] := by
  obtain ⟨sheet, ok⟩ : ∃ sheet, Sheet.parse reboundSource = .ok sheet := Sheet.parses (by decide +kernel)
  have computed : (Sheet.parse reboundSource).toOption.map (fun sheet =>
      (decide (sheet.body.roots.Pairwise fun a b => isUse b = true → isUse a = true),
        decide (∀ node ∈ sheet.body.roots, isUse node = true → node.data.raws.semicolon = true),
        (ensureAll (scan sheet) sheet reboundRequirements).1.uses,
        (ensureAll (scan sheet) sheet reboundRequirements).2.print)) =
      some (true, true, [("bar", "m/x"), ("foo", "m/a")], reboundText) := by decide +kernel
  simp only [ok, Except.toOption, Option.map_some, Option.some_inj, Prod.mk.injEq,
    decide_eq_true_eq] at computed
  obtain ⟨leading, ended, bound, printed⟩ := computed
  obtain ⟨table, result, ensured, -, -, -, -, again, reread, uses⟩ :=
    @ensuredImportsReread _ sheet ok leading ended reboundRequirements (by decide) (by decide)
  rw [ensured] at bound printed
  exact ⟨sheet, again, ok, by rw [ensured]; exact printed, printed ▸ reread, uses.trans bound⟩

end ImportTable
end SheetLint
