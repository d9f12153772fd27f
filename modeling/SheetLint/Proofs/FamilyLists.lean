import SheetLint.Proofs.FlatValues
import SheetLint.Proofs.HiddenMatches

/-! Lists of family names. A name is written as it is, with single spaces between its words, or between quotes,
and commas with white space on both sides separate the names. A family-name matcher finds in such a list the
names that are its key without their quotes, each with the bytes that it takes up, and no other text. -/
namespace SheetLint
open Text (byteSize byteSizeNil byteSizeCons byteSizeAppend isAsciiBlank)

/-! ## Lists and their text -/

def isNameChar (c : Char) : Bool :=
  !List.contains [' ', '\t', '\n', '\r', '\x0c', ',', '/', ':', '(', ')', '"', '\''] c

structure FamilyWord where
  text : List Char
  visible : text ≠ []
  plain : text.all isNameChar = true

structure QuotedName where
  quote : Char
  content : List Char
  mark : quote = '"' ∨ quote = '\''
  plain : content.all (fun c => c != '\\' && c != quote) = true

inductive FamilyEntry where
  | bare (first : FamilyWord) (more : List FamilyWord)
  | quoted (name : QuotedName)

structure Comma where
  before : List Char
  after : List Char
  blank : (before ++ after).all (fun c => c == ' ' || c == '\t' || c == '\n') = true

inductive FamilyList where
  | last (entry : FamilyEntry)
  | next (entry : FamilyEntry) (comma : Comma) (rest : FamilyList)

def spaced (words : List FamilyWord) : List Char := words.flatMap fun word => ' ' :: word.text

namespace FamilyEntry

def written : FamilyEntry → List Char
  | bare first more => first.text ++ spaced more
  | quoted name => name.quote :: (name.content ++ [name.quote])

def unquoted : FamilyEntry → List Char
  | bare first more => first.text ++ spaced more
  | quoted name => name.content

def keyRanges (key : List Char) (pos : Nat) (entry : FamilyEntry) : List ByteRange :=
  if entry.unquoted = key then [⟨pos, pos + byteSize entry.written⟩] else []

def replaced (key replacement : List Char) (entry : FamilyEntry) : List Char :=
  if entry.unquoted = key then replacement else entry.written

end FamilyEntry

def Comma.written (comma : Comma) : List Char := comma.before ++ ',' :: comma.after

namespace FamilyList

def text : FamilyList → List Char
  | last entry => entry.written
  | next entry comma rest => entry.written ++ (comma.written ++ rest.text)

def places (pos : Nat) : FamilyList → List (FamilyEntry × ByteRange)
  | last entry => [(entry, ⟨pos, pos + byteSize entry.written⟩)]
  | next entry comma rest =>
    (entry, ⟨pos, pos + byteSize entry.written⟩) ::
      rest.places (pos + byteSize entry.written + byteSize comma.written)

def keyRanges (key : List Char) (pos : Nat) (list : FamilyList) : List ByteRange :=
  ((list.places pos).filter fun place => place.1.unquoted = key).map Prod.snd

def replaced (key replacement : List Char) : FamilyList → List Char
  | last entry => entry.replaced key replacement
  | next entry comma rest =>
    entry.replaced key replacement ++ (comma.written ++ rest.replaced key replacement)

end FamilyList

/-! ## Characters -/

theorem FamilyWord.wordChars (word : FamilyWord) : word.text.all Lexeme.isWordChar = true := by
  rw [List.all_eq_true]
  intro c listed
  have plain := List.all_eq_true.mp word.plain c listed
  simp only [isNameChar, List.contains_cons, List.contains_nil, Bool.or_false, Bool.not_eq_true', Bool.or_eq_false_iff]
    at plain
  simp [Lexeme.isWordChar, Lexeme.isDividerChar, Lexeme.isQuote, isAsciiBlank, plain]

theorem Comma.blanks (comma : Comma) :
    comma.before.all isAsciiBlank = true ∧ comma.after.all isAsciiBlank = true := by
  rw [← Bool.and_eq_true, ← List.all_append, List.all_eq_true]
  intro c listed
  have gap := List.all_eq_true.mp comma.blank c listed
  simp only [Bool.or_eq_true, beq_iff_eq] at gap
  rcases gap with (same | same) | same <;> subst same <;> rfl

def Separates (rest : List Char) : Prop := ∀ c ∈ rest.head?, isAsciiBlank c = true ∨ c = ','

theorem Separates.ends {rest : List Char} (separates : Separates rest) :
    ∀ c ∈ rest.head?, Lexeme.isWordChar c = false ∧ c ≠ '(' := by
  intro c head
  rcases separates c head with blank | same
  · refine ⟨by simp [Lexeme.isWordChar, blank], ?_⟩
    rintro rfl
    cases blank
  · subst same
    exact ⟨rfl, by decide⟩

theorem Comma.separates (comma : Comma) (rest : List Char) : Separates (comma.written ++ rest) := by
  intro c head
  have blanks := comma.blanks.1
  unfold Comma.written at head
  cases own : comma.before with
  | nil =>
    rw [own] at head
    exact .inr (Option.some.inj head).symm
  | cons d blank =>
    rw [own] at head blanks
    obtain rfl : d = c := Option.some.inj head
    exact .inl (Bool.and_eq_true_iff.mp blanks).1

theorem spacedCons (word : FamilyWord) (more : List FamilyWord) :
    spaced (word :: more) = [' '] ++ (word.text ++ spaced more) := rfl

theorem spacedSize (word : FamilyWord) (more : List FamilyWord) :
    byteSize (spaced (word :: more)) = 1 + byteSize word.text + byteSize (spaced more) := by
  have one : byteSize [' '] = 1 := rfl
  rw [spacedCons, byteSizeAppend, byteSizeAppend, one, Nat.add_assoc]

theorem spacedSeparates {rest : List Char} (words : List FamilyWord) (separates : Separates rest) :
    Separates (spaced words ++ rest) := by
  cases words with
  | nil => exact separates
  | cons word more =>
    intro c head
    obtain rfl : ' ' = c := Option.some.inj head
    exact .inl rfl

/-! ## Nodes of a list -/

def spacedNodes (pos : Nat) : List FamilyWord → List ValueNode
  | [] => []
  | word :: more =>
    spaceNode pos [' '] :: wordNode (pos + 1) word.text :: spacedNodes (pos + 1 + byteSize word.text) more

def FamilyEntry.nodes (pos : Nat) : FamilyEntry → List ValueNode
  | bare first more => wordNode pos first.text :: spacedNodes (pos + byteSize first.text) more
  | quoted name => [stringNode pos name.quote name.content]

def Comma.apart (pos : Nat) (comma : Comma) : List ValueNode :=
  gapNodes pos comma.before ++ commaNode (pos + byteSize comma.before) [] [] ::
    gapNodes (pos + byteSize comma.before + 1) comma.after

namespace FamilyList

def apart (pos : Nat) : FamilyList → List ValueNode
  | last entry => entry.nodes pos
  | next entry comma rest =>
    entry.nodes pos ++ (comma.apart (pos + byteSize entry.written) ++
      rest.apart (pos + byteSize entry.written + byteSize comma.written))

def nodes (pos : Nat) : FamilyList → List ValueNode
  | last entry => entry.nodes pos
  | next entry comma rest =>
    entry.nodes pos ++ commaNode (pos + byteSize entry.written) comma.before comma.after ::
      rest.nodes (pos + byteSize entry.written + byteSize comma.written)

end FamilyList

section Reading
variable {pos : Nat} {rest : List Char} {nodes : List ValueNode}

theorem wordHead (word : FamilyWord) (rest : List Char) :
    ∀ c ∈ (word.text ++ rest).head?, isAsciiBlank c = false := by
  obtain ⟨d, more, own⟩ := List.exists_cons_of_ne_nil word.visible
  have plain := word.wordChars
  rw [own] at plain
  intro c head
  rw [own] at head
  obtain rfl : d = c := Option.some.inj head
  exact (Lexeme.wordOther (Bool.and_eq_true_iff.mp plain).1).1

theorem FamilyEntry.head (entry : FamilyEntry) (rest : List Char) :
    ∀ c ∈ (entry.written ++ rest).head?, isAsciiBlank c = false := by
  cases entry with
  | bare first more =>
    rw [written, List.append_assoc]
    exact wordHead first _
  | quoted name =>
    intro c head
    obtain rfl : name.quote = c := Option.some.inj head
    rcases name.mark with same | same <;> rw [same] <;> rfl

theorem FamilyList.head (list : FamilyList) : ∀ c ∈ list.text.head?, isAsciiBlank c = false := by
  cases list with
  | last entry =>
    have first := entry.head []
    rwa [List.append_nil] at first
  | next entry comma rest => exact entry.head _

theorem Reads.spaced (words : List FamilyWord) (separates : Separates rest)
    (tail : Reads (pos + byteSize (spaced words)) rest nodes) :
    Reads pos (SheetLint.spaced words ++ rest) (spacedNodes pos words ++ nodes) := by
  induction words generalizing pos with
  | nil => exact tail
  | cons word more ih =>
    rw [spacedSize, ← Nat.add_assoc, ← Nat.add_assoc] at tail
    have named := (ih tail).word word.visible word.wordChars (spacedSeparates more separates).ends
    have gap := @Reads.space pos _ _ [' '] named (by simp) rfl (wordHead word _)
    rw [spacedCons, List.append_assoc, List.append_assoc]
    exact gap

theorem Reads.entry (entry : FamilyEntry) (separates : Separates rest)
    (tail : Reads (pos + byteSize entry.written) rest nodes) :
    Reads pos (entry.written ++ rest) (entry.nodes pos ++ nodes) := by
  cases entry with
  | bare first more =>
    rw [FamilyEntry.written, byteSizeAppend, ← Nat.add_assoc] at tail
    have named := (tail.spaced more separates).word first.visible first.wordChars
      (spacedSeparates more separates).ends
    rw [FamilyEntry.written, List.append_assoc]
    exact named
  | quoted name => exact .quoted name.mark name.plain tail

theorem Reads.separator (comma : Comma) (tail : Reads (pos + byteSize comma.written) rest nodes)
    (ends : ∀ c ∈ rest.head?, isAsciiBlank c = false) :
    Reads pos (comma.written ++ rest) (comma.apart pos ++ nodes) := by
  have size : pos + byteSize comma.written = pos + byteSize comma.before + 1 + byteSize comma.after := by
    have one : ','.utf8Size = 1 := rfl
    simp only [Comma.written, byteSizeAppend, byteSizeCons]
    omega
  rw [size] at tail
  have after := tail.gap comma.blanks.2 ends
  have before := after.comma.gap comma.blanks.1 (by simp [isAsciiBlank])
  simpa [Comma.written, Comma.apart] using before

theorem FamilyList.reads (list : FamilyList) (pos : Nat) : Reads pos list.text (list.apart pos) := by
  induction list generalizing pos with
  | last entry =>
    have alone := Reads.entry entry (by simp [Separates]) (@Reads.nil (pos + byteSize entry.written))
    simpa [text, apart] using alone
  | next entry comma rest ih =>
    exact .entry entry (comma.separates _) (.separator comma (ih _) rest.head)

end Reading

/-! ## Spaces given to the commas -/

theorem FamilyEntry.firstNode (entry : FamilyEntry) (pos : Nat) :
    ∃ node more, entry.nodes pos = node :: more ∧ node.isSpace = false ∧ node.range.start = pos := by
  cases entry with
  | bare first more => exact ⟨_, _, rfl, rfl, rfl⟩
  | quoted name => exact ⟨_, _, rfl, rfl, rfl⟩

theorem FamilyEntry.solidHead (entry : FamilyEntry) (pos : Nat) (rest : List ValueNode) :
    ∀ node ∈ (entry.nodes pos ++ rest).head?, node.isSpace = false := by
  intro node head
  obtain ⟨first, more, own, solid, -⟩ := entry.firstNode pos
  rw [own] at head
  obtain rfl : first = node := Option.some.inj head
  exact solid

theorem FamilyList.solidHead (list : FamilyList) (pos : Nat) :
    ∀ node ∈ (list.apart pos).head?, node.isSpace = false := by
  cases list with
  | last entry =>
    have first := entry.solidHead pos []
    rwa [List.append_nil] at first
  | next entry comma rest => exact entry.solidHead pos _

theorem absorbSpaced (pos : Nat) (words : List FamilyWord) (nodes : List ValueNode) :
    ValueNode.absorbSpaces (spacedNodes pos words ++ nodes) =
      spacedNodes pos words ++ ValueNode.absorbSpaces nodes := by
  induction words generalizing pos with
  | nil => rfl
  | cons word more ih =>
    simp only [spacedNodes, List.cons_append, ValueNode.absorbBetween, ih]

theorem FamilyEntry.absorbed (entry : FamilyEntry) (pos : Nat) (rest : List ValueNode) :
    ValueNode.absorbSpaces (entry.nodes pos ++ rest) = entry.nodes pos ++ ValueNode.absorbSpaces rest := by
  cases entry with
  | bare first more => simp only [nodes, List.cons_append, ValueNode.absorbWord, absorbSpaced]
  | quoted name => exact ValueNode.absorbString pos name.quote name.content rest

theorem FamilyList.absorbed (list : FamilyList) (pos : Nat) :
    ValueNode.absorbSpaces (list.apart pos) = list.nodes pos := by
  induction list generalizing pos with
  | last entry =>
    have alone := entry.absorbed pos []
    simpa [apart, nodes, ValueNode.absorbSpaces] using alone
  | next entry comma rest ih =>
    rw [apart, nodes, entry.absorbed, Comma.apart, List.append_assoc, List.cons_append,
      ValueNode.absorbComma (rest.solidHead _), ih]

theorem FamilyList.parsed (list : FamilyList) : parseValue (.ofList list.text) = list.nodes 0 := by
  have reads : Reads 0 (String.ofList list.text).toList (list.apart 0) := by
    rw [String.toList_ofList]
    exact list.reads 0
  rw [reads.parsed, list.absorbed]

/-! ## Entries as groups -/

theorem spacedUndivided (pos : Nat) (words : List FamilyWord) (div : String) :
    ∀ node ∈ spacedNodes pos words, node.isDivider div = false := by
  induction words generalizing pos with
  | nil => simp [spacedNodes]
  | cons word more ih =>
    simp only [spacedNodes, List.forall_mem_cons]
    exact ⟨rfl, rfl, ih _⟩

theorem FamilyEntry.undivided (entry : FamilyEntry) (pos : Nat) (div : String) :
    ∀ node ∈ entry.nodes pos, node.isDivider div = false := by
  cases entry with
  | bare first more => exact List.forall_mem_cons.mpr ⟨rfl, spacedUndivided _ more div⟩
  | quoted name => exact List.forall_mem_singleton.mpr rfl

theorem spacedLast (words : List FamilyWord) {node : ValueNode} (solid : node.isSpace = false) :
    ∃ last, (node :: spacedNodes node.range.stop words).getLast? = some last ∧ last.isSpace = false ∧
      last.range.stop = node.range.stop + byteSize (spaced words) := by
  induction words generalizing node with
  | nil => exact ⟨node, rfl, solid, rfl⟩
  | cons word more ih =>
    obtain ⟨last, ends, solid, stop⟩ := @ih (wordNode (node.range.stop + 1) word.text) rfl
    refine ⟨last, ?_, solid, ?_⟩
    · rw [spacedNodes, List.getLast?_cons_cons, List.getLast?_cons_cons]
      exact ends
    · rw [stop, spacedSize, ← Nat.add_assoc, ← Nat.add_assoc]
      rfl

theorem FamilyEntry.lastNode (entry : FamilyEntry) (pos : Nat) :
    ∃ last, (entry.nodes pos).getLast? = some last ∧ last.isSpace = false ∧
      last.range.stop = pos + byteSize entry.written := by
  cases entry with
  | bare first more =>
    rw [written, byteSizeAppend, ← Nat.add_assoc]
    exact @spacedLast more (wordNode pos first.text) rfl
  | quoted name => exact ⟨_, rfl, rfl, rfl⟩

theorem FamilyEntry.trimmed (entry : FamilyEntry) (pos : Nat) :
    ValueNode.trimSpaces (entry.nodes pos) = entry.nodes pos := by
  have starts := entry.solidHead pos []
  rw [List.append_nil] at starts
  obtain ⟨last, ends, solid, -⟩ := entry.lastNode pos
  refine ValueNode.trimSolid starts fun node own => ?_
  obtain rfl : last = node := Option.some.inj (ends.symm.trans own)
  exact solid

theorem FamilyEntry.range (entry : FamilyEntry) (pos : Nat) :
    Matcher.groupRange? (entry.nodes pos) = some ⟨pos, pos + byteSize entry.written⟩ := by
  obtain ⟨first, more, own, -, start⟩ := entry.firstNode pos
  obtain ⟨last, ends, -, stop⟩ := entry.lastNode pos
  rw [own] at ends
  simp only [Matcher.groupRange?, own, ends, List.head?_cons, start, stop]

theorem spacedUnquoted (pos : Nat) (words : List FamilyWord) :
    ValueNode.unquoteAll (spacedNodes pos words) = .ofList (spaced words) := by
  induction words generalizing pos with
  | nil => rfl
  | cons word more ih =>
    have further := ih (pos + 1 + byteSize word.text)
    rw [spacedCons, String.ofList_append, String.ofList_append, ← further]
    rfl

theorem FamilyEntry.unquotes (entry : FamilyEntry) (pos : Nat) :
    ValueNode.unquoteAll (entry.nodes pos) = .ofList entry.unquoted := by
  cases entry with
  | bare first more =>
    rw [unquoted, String.ofList_append, ← spacedUnquoted (pos + byteSize first.text)]
    rfl
  | quoted name => exact String.append_empty

theorem FamilyEntry.located (entry : FamilyEntry) (pos : Nat) (matcher : Matcher) :
    matcher.familyRanges (entry.nodes pos) = entry.keyRanges matcher.key.toList pos := by
  have same : String.ofList entry.unquoted = matcher.key ↔ entry.unquoted = matcher.key.toList := by
    rw [← String.toList_inj, String.toList_ofList]
  rw [Matcher.familyRanges, entry.trimmed, entry.unquotes, entry.range]
  simp only [same, Option.toList_some, keyRanges]

theorem FamilyEntry.spliced (entry : FamilyEntry) (key replacement : List Char) (pos : Nat) :
    Spliced (fun _ => replacement) pos entry.written (entry.keyRanges key pos)
      (entry.replaced key replacement) := by
  unfold keyRanges replaced
  split
  · have cut := @Spliced.cut (fun _ => replacement) pos [] entry.written [] [] [] .done
    simpa using cut
  · exact .done

theorem FamilyEntry.unquotedInside (entry : FamilyEntry) :
    ∃ before after, entry.written = before ++ (entry.unquoted ++ after) := by
  cases entry with
  | bare first more => exact ⟨[], [], (List.append_nil _).symm⟩
  | quoted name => exact ⟨[name.quote], [name.quote], rfl⟩

namespace FamilyList

theorem keyRangesLast (key : List Char) (pos : Nat) (entry : FamilyEntry) :
    keyRanges key pos (.last entry) = entry.keyRanges key pos := by
  by_cases same : entry.unquoted = key <;> simp [keyRanges, FamilyEntry.keyRanges, places, same]

theorem keyRangesNext (key : List Char) (pos : Nat) (entry : FamilyEntry) (comma : Comma) (rest : FamilyList) :
    keyRanges key pos (.next entry comma rest) =
      entry.keyRanges key pos ++ rest.keyRanges key (pos + byteSize entry.written + byteSize comma.written) := by
  by_cases same : entry.unquoted = key <;> simp [keyRanges, FamilyEntry.keyRanges, places, same]

theorem located (list : FamilyList) (pos : Nat) (matcher : Matcher) :
    matcher.locateFamily (list.nodes pos) = list.keyRanges matcher.key.toList pos := by
  rw [Matcher.locateFamilyGroups]
  induction list generalizing pos with
  | last entry =>
    rw [nodes, ValueNode.groupsSplit, List.splitOnP_eq_singleton (entry.undivided pos ","),
      List.flatMap_singleton, entry.located, keyRangesLast]
  | next entry comma rest ih =>
    rw [nodes, ValueNode.groupsSplit,
      List.splitOnP_append_cons_of_forall_mem (entry.undivided pos ",") _ rfl, ← ValueNode.groupsSplit,
      List.flatMap_cons, entry.located, ih, keyRangesNext]

theorem spliced (list : FamilyList) (key replacement : List Char) (pos : Nat) :
    Spliced (fun _ => replacement) pos list.text (list.keyRanges key pos) (list.replaced key replacement) := by
  induction list generalizing pos with
  | last entry =>
    rw [keyRangesLast]
    exact entry.spliced key replacement pos
  | next entry comma rest ih =>
    rw [keyRangesNext]
    exact (entry.spliced key replacement pos).append ((ih _).behind comma.written)

theorem keyInside (list : FamilyList) (key : List Char) (pos : Nat) (found : list.keyRanges key pos ≠ []) :
    ∃ before after, list.text = before ++ (key ++ after) := by
  induction list generalizing pos with
  | last entry =>
    rw [keyRangesLast, FamilyEntry.keyRanges, ite_ne_right_iff] at found
    obtain ⟨before, after, own⟩ := entry.unquotedInside
    exact ⟨before, after, found.1 ▸ own⟩
  | next entry comma rest ih =>
    by_cases same : entry.unquoted = key
    · obtain ⟨before, after, own⟩ := entry.unquotedInside
      exact ⟨before, after ++ (comma.written ++ rest.text), by simp [text, own, same]⟩
    · rw [keyRangesNext, FamilyEntry.keyRanges, if_neg same, List.nil_append] at found
      obtain ⟨before, after, own⟩ := ih _ found
      exact ⟨entry.written ++ (comma.written ++ before), after, by simp [text, own]⟩

end FamilyList

/-! ## Family-name matchers -/

namespace Matcher

theorem familyExecuted {matcher : Matcher} (form : matcher.strategy = .familyName) (list : FamilyList) :
    matcher.execute (.ofList list.text) = list.keyRanges matcher.key.toList 0 := by
  have found : matcher.locate (parseValue (.ofList list.text)) =
      some (list.keyRanges matcher.key.toList 0) := by
    rw [locate, form, list.parsed]
    exact congrArg some (list.located 0 matcher)
  have quick : matcher.test (.ofList list.text) = Text.occursIn matcher.key.toList list.text := by
    rw [test, form, String.toList_ofList]
  rw [execute, found, quick]
  split
  · rfl
  · next hidden =>
    by_contra some
    obtain ⟨before, after, own⟩ := list.keyInside matcher.key.toList 0 (Ne.symm some)
    exact hidden (own ▸ Text.occursInMiddle before _ after)

theorem familyNamesExact (matcher : Matcher) (form : matcher.strategy = .familyName) (list : FamilyList) :
    matcher.execute (.ofList list.text) = list.keyRanges matcher.key.toList 0 ∧
    ∀ replacement, matcher.replacement = some replacement →
      matcher.fix (.ofList list.text) =
        .ok (.ofList (list.replaced matcher.key.toList replacement.toList)) := by
  have found := familyExecuted form list
  refine ⟨found, fun replacement own => ?_⟩
  have replaces : (fun part => (matcher.replace part).getD part) = fun _ => replacement := by
    funext part
    simp [replace, own, form]
  have spliced := list.spliced matcher.key.toList replacement.toList 0
  rw [fix, replaces]
  refine replaceSpliced ?_ (matcher.executeAscending _ .own)
  rw [found, String.toList_ofList]
  exact spliced

def comicList : FamilyList :=
  let sans : FamilyEntry := .bare ⟨"Comic".toList, by decide, by decide⟩ [⟨"Sans".toList, by decide, by decide⟩]
  let strange : FamilyEntry := .quoted ⟨'\'', "a, (b) / \"c".toList, by decide, by decide⟩
  .next (.bare ⟨"Über".toList, by decide, by decide⟩ []) ⟨[' '], [], by decide⟩ <|
    .next (.quoted ⟨'"', "Comic Sans".toList, by decide, by decide⟩) ⟨[], ['\n'], by decide⟩ <|
      .next strange ⟨['\t'], [' ', ' '], by decide⟩ <|
        .next sans ⟨[], [], by decide⟩ (.last (.quoted ⟨'\'', "Comic  Sans".toList, by decide, by decide⟩))

theorem familyNamesExactMixed :
    (familyMatcher "Comic Sans").execute "Über ,\"Comic Sans\",\n'a, (b) / \"c'\t,  Comic Sans,'Comic  Sans'" =
        [⟨7, 19⟩, ⟨38, 48⟩] ∧
      (familyMatcher "Comic Sans").fix "Über ,\"Comic Sans\",\n'a, (b) / \"c'\t,  Comic Sans,'Comic  Sans'" =
        .ok "Über ,$font,\n'a, (b) / \"c'\t,  $font,'Comic  Sans'" := by
  have text : "Über ,\"Comic Sans\",\n'a, (b) / \"c'\t,  Comic Sans,'Comic  Sans'" = String.ofList comicList.text := by
    decide
  have ranges : comicList.keyRanges "Comic Sans".toList 0 = [⟨7, 19⟩, ⟨38, 48⟩] := by decide
  have fixed : String.ofList (comicList.replaced "Comic Sans".toList "$font".toList) =
      "Über ,$font,\n'a, (b) / \"c'\t,  $font,'Comic  Sans'" := by decide
  obtain ⟨found, replaced⟩ := familyNamesExact (familyMatcher "Comic Sans") rfl comicList
  rw [text, ← ranges, ← fixed]
  exact ⟨found, replaced "$font" rfl⟩

end Matcher
end SheetLint
