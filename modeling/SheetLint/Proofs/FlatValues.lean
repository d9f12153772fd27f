import SheetLint.Proofs.ValueReading

/-! Values without calls. Where no parenthesis is opened, reading a value is reading its words, spaces, commas
and strings one behind the other, and then giving the spaces beside each comma to it. -/
namespace SheetLint
open Text (byteSize byteSizeNil byteSizeCons byteSizeAppend isAsciiBlank)

/-! ## One lexeme after the other -/

namespace Lexeme
variable {pos : Nat} {rest : List Char}

theorem runExact {p : Char → Bool} {run rest : List Char} (inside : run.all p = true)
    (ends : ∀ c ∈ rest.head?, p c = false) :
    (run ++ rest).takeWhile p = run ∧ (run ++ rest).dropWhile p = rest := by
  rw [List.takeWhile_append_of_pos (List.all_eq_true.mp inside),
    List.dropWhile_append_of_pos (List.all_eq_true.mp inside)]
  cases rest with
  | nil => simp
  | cons c rest => simp [ends c rfl]

theorem wordOther {c : Char} (word : isWordChar c = true) :
    isAsciiBlank c = false ∧ isDividerChar c = false ∧ isQuote c = false ∧ c ≠ '(' ∧ c ≠ ')' := by
  simpa [isWordChar, and_assoc] using word

theorem lexWord {word : List Char} (visible : word ≠ []) (plain : word.all isWordChar = true)
    (ends : ∀ c ∈ rest.head?, isWordChar c = false) :
    lex pos (word ++ rest) = ⟨.word, word, pos⟩ :: lex (pos + byteSize word) rest := by
  obtain ⟨c, word, rfl⟩ := List.exists_cons_of_ne_nil visible
  obtain ⟨own, more⟩ := Bool.and_eq_true_iff.mp (List.all_cons ▸ plain)
  obtain ⟨notBlank, notDivider, notQuote, notOpening, notClosing⟩ := wordOther own
  have notSlash : c ≠ '/' := by
    rintro rfl
    cases notDivider
  obtain ⟨taken, left⟩ := runExact more ends
  rw [List.cons_append, lex]
  simp [first, notSlash, notBlank, notDivider, notOpening, notClosing, notQuote, taken, left, stop]

theorem lexSpace {blanks : List Char} (visible : blanks ≠ []) (blank : blanks.all isAsciiBlank = true)
    (ends : ∀ c ∈ rest.head?, isAsciiBlank c = false) :
    lex pos (blanks ++ rest) = ⟨.space, blanks, pos⟩ :: lex (pos + byteSize blanks) rest := by
  obtain ⟨c, blanks, rfl⟩ := List.exists_cons_of_ne_nil visible
  obtain ⟨own, more⟩ := Bool.and_eq_true_iff.mp (List.all_cons ▸ blank)
  have notSlash : c ≠ '/' := by
    rintro rfl
    cases own
  obtain ⟨taken, left⟩ := runExact more ends
  rw [List.cons_append, lex]
  simp [first, notSlash, own, taken, left, stop]

theorem lexComma : lex pos (',' :: rest) = ⟨.divider, [','], pos⟩ :: lex (pos + 1) rest := by
  rw [lex]
  simp only [first, isAsciiBlank, isDividerChar, stop]
  rfl

theorem closeStringPlain {quote : Char} {content : List Char} (mark : quote ≠ '\\')
    (plain : content.all (fun c => c != '\\' && c != quote) = true) :
    closeString quote (content ++ quote :: rest) = some (content ++ [quote], rest) := by
  induction content with
  | nil =>
    rw [List.nil_append, closeString.eq_3 _ _ _ fun _ _ same _ => mark same, if_pos (beq_self_eq_true _)]
    rfl
  | cons c content ih =>
    obtain ⟨own, more⟩ := Bool.and_eq_true_iff.mp (List.all_cons ▸ plain)
    simp only [Bool.and_eq_true, bne_iff_ne] at own
    rw [List.cons_append, closeString.eq_3 _ _ _ fun _ _ same _ => own.1 same, if_neg (by simpa using own.2),
      ih more]
    rfl

theorem lexQuoted {quote : Char} {content : List Char} (mark : quote = '"' ∨ quote = '\'')
    (plain : content.all (fun c => c != '\\' && c != quote) = true) :
    lex pos (quote :: (content ++ quote :: rest)) =
      ⟨.string true, quote :: (content ++ [quote]), pos⟩ ::
        lex (pos + byteSize (quote :: (content ++ [quote]))) rest := by
  have notEscape : quote ≠ '\\' := by
    rcases mark with same | same <;> simp [same]
  have closed := @closeStringPlain rest quote content notEscape plain
  rw [lex]
  rcases mark with same | same <;> subst same <;>
    simp [first, isAsciiBlank, isDividerChar, isQuote, closed, stop]

theorem openingHead {lexeme : Lexeme} (leads : lexeme ∈ (lex pos rest).head?) (opens : lexeme.kind = .opening) :
    rest.head? = some '(' := by
  cases rest with
  | nil => simp [lex] at leads
  | cons c rest =>
    rw [lex, List.head?_cons, Option.mem_some_iff] at leads
    rw [← leads, first] at opens
    split_ifs at opens with comment blank divider opening closing quote
    · rw [List.head?_cons, beq_iff_eq.mp opening]
    · split at opens <;> cases opens

end Lexeme

/-! ## Nodes in a row -/

def Reads (pos : Nat) (text : List Char) (nodes : List ValueNode) : Prop :=
  valueItems 0 (Lexeme.lex pos text) = nodes.map .node

def wordNode (pos : Nat) (word : List Char) : ValueNode :=
  .leaf .word (.ofList word) ⟨pos, pos + byteSize word⟩

def spaceNode (pos : Nat) (blanks : List Char) : ValueNode :=
  .leaf .space (.ofList blanks) ⟨pos, pos + byteSize blanks⟩

def stringNode (pos : Nat) (quote : Char) (content : List Char) : ValueNode :=
  .leaf (.string quote true) (.ofList content) ⟨pos, pos + byteSize (quote :: (content ++ [quote]))⟩

def gapNodes (pos : Nat) (blanks : List Char) : List ValueNode :=
  if blanks = [] then [] else [spaceNode pos blanks]

def commaNode (pos : Nat) (before after : List Char) : ValueNode :=
  .leaf (.divider (.ofList before) (.ofList after)) ","
    ⟨pos, pos + byteSize (before ++ ',' :: after)⟩

theorem itemAlone {lexeme : Lexeme} {rest : List Lexeme}
    (alone : lexeme.kind = .word → ∀ next ∈ rest.head?, next.kind ≠ .opening) :
    valueItems 0 (lexeme :: rest) = lexeme.toItem :: valueItems 0 rest := by
  by_cases word : lexeme.kind = .word
  · cases readAs lexeme rest with
    | address opens => exact absurd opens (alone word _ rfl)
    | call opens => exact absurd opens (alone word _ rfl)
    | item _ items => exact items 0 (Nat.zero_le _)
  · rw [valueItems.eq_def]
    simp only [Nat.not_lt_zero, if_false]
    split
    · next kind => exact absurd kind word
    · rfl

namespace Reads
variable {pos : Nat} {rest : List Char} {nodes : List ValueNode}

theorem nil : Reads pos [] [] := by
  simp [Reads, Lexeme.lex, valueItems]

theorem word {word : List Char} (tail : Reads (pos + byteSize word) rest nodes) (visible : word ≠ [])
    (plain : word.all Lexeme.isWordChar = true)
    (ends : ∀ c ∈ rest.head?, Lexeme.isWordChar c = false ∧ c ≠ '(') :
    Reads pos (word ++ rest) (wordNode pos word :: nodes) := by
  unfold Reads at tail ⊢
  rw [Lexeme.lexWord visible plain fun c head => (ends c head).1, itemAlone fun _ next leads opens => ?_, tail]
  · rfl
  · exact (ends '(' (Lexeme.openingHead leads opens)).2 rfl

theorem space {blanks : List Char} (tail : Reads (pos + byteSize blanks) rest nodes) (visible : blanks ≠ [])
    (blank : blanks.all isAsciiBlank = true) (ends : ∀ c ∈ rest.head?, isAsciiBlank c = false) :
    Reads pos (blanks ++ rest) (spaceNode pos blanks :: nodes) := by
  unfold Reads at tail ⊢
  rw [Lexeme.lexSpace visible blank ends, itemAlone (by simp), tail]
  rfl

theorem gap {blanks : List Char} (tail : Reads (pos + byteSize blanks) rest nodes)
    (blank : blanks.all isAsciiBlank = true) (ends : ∀ c ∈ rest.head?, isAsciiBlank c = false) :
    Reads pos (blanks ++ rest) (gapNodes pos blanks ++ nodes) := by
  unfold gapNodes
  split
  · next none =>
    subst none
    exact tail
  · next visible => exact tail.space visible blank ends

theorem comma (tail : Reads (pos + 1) rest nodes) :
    Reads pos (',' :: rest) (commaNode pos [] [] :: nodes) := by
  unfold Reads at tail ⊢
  rw [Lexeme.lexComma, itemAlone (by simp), tail]
  rfl

theorem quoted {quote : Char} {content : List Char} (mark : quote = '"' ∨ quote = '\'')
    (plain : content.all (fun c => c != '\\' && c != quote) = true)
    (tail : Reads (pos + byteSize (quote :: (content ++ [quote]))) rest nodes) :
    Reads pos (quote :: (content ++ [quote]) ++ rest) (stringNode pos quote content :: nodes) := by
  unfold Reads at tail ⊢
  rw [List.cons_append, List.append_assoc, List.singleton_append, Lexeme.lexQuoted mark plain,
    itemAlone (by simp), tail]
  simp [Lexeme.toItem, Lexeme.unquote, stringNode, Lexeme.range, Lexeme.stop]

end Reads

theorem nestNodes (size : Nat) (nodes done : List ValueNode) :
    nestCalls size (nodes.map .node) [] done = ValueNode.absorbSpaces (done.reverse ++ nodes) := by
  induction nodes generalizing done with
  | nil => simp [nestCalls, closeAll]
  | cons node nodes ih => simp [nestCalls, ih]

theorem Reads.parsed {value : String} {nodes : List ValueNode} (reads : Reads 0 value.toList nodes) :
    parseValue value = ValueNode.absorbSpaces nodes := by
  unfold Reads at reads
  simp [parseValue, reads, nestNodes]

/-! ## Spaces beside commas -/

namespace ValueNode
variable {pos : Nat} {nodes : List ValueNode}

theorem absorbWord (pos : Nat) (word : List Char) (nodes : List ValueNode) :
    absorbSpaces (wordNode pos word :: nodes) = wordNode pos word :: absorbSpaces nodes := by
  simp [wordNode, absorbSpaces]

theorem absorbString (pos : Nat) (quote : Char) (content : List Char) (nodes : List ValueNode) :
    absorbSpaces (stringNode pos quote content :: nodes) = stringNode pos quote content :: absorbSpaces nodes := by
  simp [stringNode, absorbSpaces]

theorem absorbBetween (pos next : Nat) (blanks word : List Char) (nodes : List ValueNode) :
    absorbSpaces (spaceNode pos blanks :: wordNode next word :: nodes) =
      spaceNode pos blanks :: wordNode next word :: absorbSpaces nodes := by
  simp [spaceNode, wordNode, absorbSpaces]

theorem absorbComma {before after : List Char} (ends : ∀ node ∈ nodes.head?, node.isSpace = false) :
    absorbSpaces (gapNodes pos before ++ commaNode (pos + byteSize before) [] [] ::
      (gapNodes (pos + byteSize before + 1) after ++ nodes)) = commaNode pos before after :: absorbSpaces nodes := by
  have solid : ∀ text range rest, nodes = leaf .space text range :: rest → False := by
    rintro text range rest rfl
    exact Bool.false_ne_true (ends _ rfl).symm
  have one : ','.utf8Size = 1 := rfl
  unfold gapNodes
  by_cases left : before = [] <;> by_cases right : after = []
  · subst left right
    refine absorbSpaces.eq_5 _ nodes ?_ ?_ fun _ _ _ _ _ _ _ _ => solid _ _ _
    · simp [commaNode]
    · simp [commaNode]
  · simp [left, right, commaNode, spaceNode, absorbSpaces.eq_4, one, Nat.add_assoc]
  · simp [left, right, commaNode, spaceNode, absorbSpaces.eq_3, one, Nat.add_assoc]
  · simp [left, right, commaNode, spaceNode, absorbSpaces.eq_2, one, Nat.add_assoc]

/-! ## Groups -/

theorem groupsSplit (div : String) (nodes : List ValueNode) :
    groups div nodes = nodes.splitOnP (isDivider div) := by
  induction nodes with
  | nil => rfl
  | cons node nodes ih =>
    rw [groups, ih, List.splitOnP_cons_eq_if_modifyHead]
    split
    · rfl
    · obtain ⟨group, more, own⟩ := List.exists_cons_of_ne_nil (List.splitOnP_ne_nil (isDivider div) nodes)
      rw [own]
      rfl

theorem trimSolid (starts : ∀ node ∈ nodes.head?, node.isSpace = false)
    (ends : ∀ node ∈ nodes.getLast?, node.isSpace = false) : trimSpaces nodes = nodes := by
  have kept {nodes : List ValueNode} (starts : ∀ node ∈ nodes.head?, node.isSpace = false) :
      nodes.dropWhile isSpace = nodes := by
    cases nodes with
    | nil => rfl
    | cons node nodes => rw [List.dropWhile_cons_of_neg (by simp [starts node rfl])]
  rw [← List.head?_reverse] at ends
  rw [trimSpaces, kept starts, kept ends, List.reverse_reverse]

end ValueNode

end SheetLint
