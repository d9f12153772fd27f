import Mathlib.Data.List.Basic
import SheetLint.Proofs.Headings
import SheetLint.Proofs.Relocation

/-! Selectors as words and combinators. Two selectors mean the same if they differ only in blanks that no
word needs to stay apart from the next; `tidy` writes a selector without any others. For the common
combinators the fix only moves terms: what a selector ends in is its last term, and a branch that is
given a combinator has it as its first. -/
namespace SheetLint.Selector
open Text (isBlank leading trimStart trimEnd trailing)

def isCombinator (c : Char) : Bool := c == '>' || c == '~' || c == '+'

def isWordly (c : Char) : Bool := !isBlank c && !isCombinator c

def terms : List Char → List (List Char)
  | [] => []
  | c :: cs =>
    if isBlank c then terms cs
    else if isCombinator c then [c] :: terms cs
    else if cs.head?.any isWordly then
      match terms cs with
      | word :: rest => (c :: word) :: rest
      | [] => [[c]]
    else [c] :: terms cs

def render : List (List Char) → List Char
  | [] => []
  | [last] => last
  | first :: next :: rest =>
    if first.all isWordly && next.all isWordly then first ++ ' ' :: render (next :: rest)
    else first ++ render (next :: rest)

def tidy (text : List Char) : List Char := render (terms text)

def branches (selector : String) : List (List Char) := Text.splitOn ',' selector.toList

/-! ## Terms of a text -/

theorem combinatorVisible {c : Char} (combinator : isCombinator c = true) : isBlank c = false := by
  simp only [isCombinator, Bool.or_eq_true, beq_iff_eq] at combinator
  rcases combinator with (rfl | rfl) | rfl <;> rfl

theorem blankWordless {c : Char} (blank : isBlank c = true) : isWordly c = false := by
  simp [isWordly, blank]

theorem combinatorWordless {c : Char} (combinator : isCombinator c = true) : isWordly c = false := by
  simp [isWordly, combinator]

theorem termsBlank {c : Char} (blank : isBlank c = true) (cs : List Char) :
    terms (c :: cs) = terms cs := by
  simp [terms, blank]

theorem termsCombinator {c : Char} (combinator : isCombinator c = true) (cs : List Char) :
    terms (c :: cs) = [c] :: terms cs := by
  simp [terms, combinator, combinatorVisible combinator]

theorem termsAlone {c : Char} (wordly : isWordly c = true) {cs : List Char}
    (apart : ∀ d ∈ cs.head?, isWordly d = false) : terms (c :: cs) = [c] :: terms cs := by
  simp only [isWordly, Bool.and_eq_true, Bool.not_eq_true'] at wordly
  have alone : cs.head?.any isWordly = false := by
    cases first : cs.head? with
    | none => rfl
    | some d => exact apart d first
  simp [terms, wordly, alone]

theorem termsFirst {c : Char} (wordly : isWordly c = true) (cs : List Char) :
    ∃ word rest, terms (c :: cs) = (c :: word) :: rest := by
  simp only [isWordly, Bool.and_eq_true, Bool.not_eq_true'] at wordly
  simp only [terms, wordly, Bool.false_eq_true, if_false]
  split
  · split <;> exact ⟨_, _, rfl⟩
  · exact ⟨_, _, rfl⟩

theorem termsWord {c d : Char} (wordly : isWordly c = true) (next : isWordly d = true) {cs : List Char}
    {word : List Char} {rest : List (List Char)} (found : terms (d :: cs) = word :: rest) :
    terms (c :: d :: cs) = (c :: word) :: rest := by
  simp only [isWordly, Bool.and_eq_true, Bool.not_eq_true'] at wordly
  have more : ((d :: cs).head?.any isWordly) = true := next
  rw [terms, if_neg (by simp [wordly]), if_neg (by simp [wordly]), if_pos more, found]

theorem charCases (c : Char) : isBlank c = true ∨ isCombinator c = true ∨ isWordly c = true := by
  simp only [isWordly]
  cases isBlank c <;> cases isCombinator c <;> simp

theorem termsAppend {front behind : List Char}
    (seam : (∀ c ∈ front.getLast?, isWordly c = false) ∨ ∀ c ∈ behind.head?, isWordly c = false) :
    terms (front ++ behind) = terms front ++ terms behind := by
  induction front with
  | nil => rfl
  | cons c cs ih =>
    cases cs with
    | nil =>
      rcases charCases c with blank | combinator | wordly
      · rw [List.cons_append, termsBlank blank, termsBlank blank]
        rfl
      · rw [List.cons_append, termsCombinator combinator, termsCombinator combinator]
        rfl
      · have apart : ∀ d ∈ behind.head?, isWordly d = false := by
          refine seam.resolve_left fun last => ?_
          cases wordly.symm.trans (last c rfl)
        rw [List.cons_append, List.nil_append, termsAlone wordly apart, termsAlone wordly (by simp)]
        rfl
    | cons d ds =>
      have tail := ih seam
      rcases charCases c with blank | combinator | wordly
      · rw [List.cons_append, termsBlank blank, termsBlank blank, tail]
      · rw [List.cons_append, termsCombinator combinator, termsCombinator combinator, tail]
        rfl
      · cases next : isWordly d with
        | true =>
          obtain ⟨word, rest, found⟩ := termsFirst next ds
          rw [found, List.cons_append] at tail
          rw [termsWord wordly next found]
          exact termsWord wordly next tail
        | false =>
          have apart (more : List Char) : ∀ e ∈ (d :: more).head?, isWordly e = false := by
            rintro e ⟨⟩
            exact next
          rw [termsAlone wordly (apart ds)]
          exact (termsAlone wordly (apart (ds ++ behind))).trans (congrArg ([c] :: ·) tail)

theorem termsBlanks {blanks : List Char} (blank : ∀ c ∈ blanks, isBlank c = true) :
    terms blanks = [] := by
  induction blanks with
  | nil => rfl
  | cons c cs ih =>
    obtain ⟨first, others⟩ := List.forall_mem_cons.mp blank
    rw [termsBlank first, ih others]

theorem termsLeading {blanks text : List Char} (blank : ∀ c ∈ blanks, isBlank c = true) :
    terms (blanks ++ text) = terms text := by
  induction blanks with
  | nil => rfl
  | cons c cs ih =>
    obtain ⟨first, others⟩ := List.forall_mem_cons.mp blank
    rw [List.cons_append, termsBlank first, ih others]

theorem termsTrailing {blanks text : List Char} (blank : ∀ c ∈ blanks, isBlank c = true) :
    terms (text ++ blanks) = terms text := by
  have seam : ∀ c ∈ blanks.head?, isWordly c = false := fun c first =>
    blankWordless (blank c (List.mem_of_head? first))
  rw [termsAppend (.inr seam), termsBlanks blank, List.append_nil]

theorem termsTrim (text : List Char) : terms (Text.trim text) = terms text := by
  conv => rhs; rw [← Text.leadingTrimStart text, ← Text.trimEndTrailing (trimStart text)]
  rw [termsLeading (Text.leadingBlank text), termsTrailing (Text.trailingBlank _), Text.trim]

theorem termsEnd {c : Char} (combinator : isCombinator c = true) (text : List Char) :
    terms (text ++ [c]) = terms text ++ [[c]] := by
  have seam : ∀ d ∈ [c].head?, isWordly d = false := by
    rintro d ⟨⟩
    exact combinatorWordless combinator
  rw [termsAppend (.inr seam), termsCombinator combinator]
  rfl

theorem termsJoin (texts : List (List Char)) :
    terms (List.intercalate [' '] texts) = texts.flatMap terms := by
  induction texts with
  | nil => rfl
  | cons text rest ih =>
    cases rest with
    | nil => simp
    | cons next rest =>
      have seam : ∀ d ∈ (' ' :: List.intercalate [' '] (next :: rest)).head?, isWordly d = false := by
        rintro d ⟨⟩
        rfl
      rw [List.intercalate_cons_cons, List.append_assoc, List.singleton_append, termsAppend (.inr seam),
        termsBlank rfl, ih]
      rfl

/-! ## Writing terms out -/

def IsTerm (text : List Char) : Prop :=
  (∃ c, isCombinator c = true ∧ text = [c]) ∨ text ≠ [] ∧ ∀ c ∈ text, isWordly c = true

theorem termsProper (text : List Char) : ∀ term ∈ terms text, IsTerm term := by
  induction text with
  | nil => simp [terms]
  | cons c cs ih =>
    rcases charCases c with blank | combinator | wordly
    · rwa [termsBlank blank]
    · rw [termsCombinator combinator]
      exact List.forall_mem_cons.mpr ⟨.inl ⟨c, combinator, rfl⟩, ih⟩
    · have single : IsTerm [c] := .inr ⟨by simp, by simpa using wordly⟩
      cases cs with
      | nil =>
        rw [termsAlone wordly (by simp)]
        exact List.forall_mem_cons.mpr ⟨single, ih⟩
      | cons d ds =>
        cases next : isWordly d with
        | false =>
          rw [termsAlone wordly (by rintro e ⟨⟩; exact next)]
          exact List.forall_mem_cons.mpr ⟨single, ih⟩
        | true =>
          obtain ⟨word, rest, found⟩ := termsFirst next ds
          rw [found] at ih
          obtain ⟨first, others⟩ := List.forall_mem_cons.mp ih
          rw [termsWord wordly next found]
          refine List.forall_mem_cons.mpr ⟨.inr ⟨by simp, ?_⟩, others⟩
          rcases first with ⟨e, combinator, same⟩ | ⟨-, letters⟩
          · cases same
            cases next.symm.trans (combinatorWordless combinator)
          · exact List.forall_mem_cons.mpr ⟨wordly, letters⟩

theorem termsTerm {term : List Char} (proper : IsTerm term) : terms term = [term] := by
  rcases proper with ⟨c, combinator, rfl⟩ | ⟨some, letters⟩
  · exact termsCombinator combinator []
  · induction term with
    | nil => exact absurd rfl some
    | cons c cs ih =>
      obtain ⟨first, others⟩ := List.forall_mem_cons.mp letters
      cases cs with
      | nil => exact termsAlone first (by simp)
      | cons d ds => exact termsWord first (others d (by simp)) (ih (by simp) others)

theorem IsTerm.cases {term : List Char} (proper : IsTerm term) :
    term.all isWordly = true ∨ ∃ c, isCombinator c = true ∧ term = [c] := by
  rcases proper with combinator | ⟨-, letters⟩
  · exact .inr combinator
  · exact .inl (List.all_eq_true.mpr letters)

theorem termsRender {parts : List (List Char)} (proper : ∀ term ∈ parts, IsTerm term) :
    terms (render parts) = parts := by
  induction parts with
  | nil => rfl
  | cons first rest ih =>
    obtain ⟨own, others⟩ := List.forall_mem_cons.mp proper
    cases rest with
    | nil => exact termsTerm own
    | cons next rest =>
      have tail := ih others
      rw [render]
      split
      · have seam : ∀ d ∈ (' ' :: render (next :: rest)).head?, isWordly d = false := by
          rintro d ⟨⟩
          rfl
        rw [termsAppend (.inr seam), termsBlank rfl, tail, termsTerm own]
        rfl
      · next joined =>
        have seam : (∀ c ∈ first.getLast?, isWordly c = false) ∨
            ∀ c ∈ (render (next :: rest)).head?, isWordly c = false := by
          rcases own.cases with word | ⟨c, combinator, rfl⟩
          · rcases (others next (by simp)).cases with word' | ⟨c, combinator, rfl⟩
            · simp [word, word'] at joined
            · refine .inr fun d head => ?_
              have start : (render ([c] :: rest)).head? = some c := by
                cases rest with
                | nil => rfl
                | cons => rw [render]; split <;> rfl
              cases start.symm.trans head
              exact combinatorWordless combinator
          · refine .inl ?_
            rintro d ⟨⟩
            exact combinatorWordless combinator
        rw [termsAppend seam, tail, termsTerm own]
        rfl

theorem tidyExact {text other : List Char} : tidy text = tidy other ↔ terms text = terms other := by
  constructor
  · intro same
    rw [← termsRender (termsProper text), ← termsRender (termsProper other)]
    exact congrArg terms same
  · exact congrArg render

end SheetLint.Selector

/-! ## Selectors under the fix -/

namespace SheetLint.CombinatorRule
open Text (trimStart)
open Selector
variable {c : Char} {selector : String}

def ending? (selector : List Char) : Option Char := selector.getLast?.filter isCombinator

theorem endingCases {selector : List Char} (ends : ending? selector = some c) :
    isCombinator c = true ∧ selector.dropLast ++ [c] = selector := by
  obtain ⟨last, combinator⟩ := Option.filter_eq_some_iff.mp ends
  exact ⟨combinator, List.dropLast_append_getLast? c last⟩

theorem suffixLast (c : Char) (text : List Char) :
    [c].isSuffixOf text = (text.getLast? == some c) := by
  rw [List.isSuffixOf, List.reverse_singleton, List.getLast?_eq_head?_reverse]
  cases text.reverse with
  | nil => rfl
  | cons d ds => simp [List.isPrefixOf, eq_comm]

theorem detectCommon (severity : Severity) (selector : String) :
    (including [] severity).detect selector =
      (ending? selector.toList).map fun c => String.ofList [c] := by
  have each (c : Char) : (String.ofList [c]).toList.isSuffixOf selector.toList =
      (selector.toList.getLast? == some c) := by
    rw [String.toList_ofList, suffixLast]
  have listed : (including [] severity).combinators =
      [String.ofList ['>'], String.ofList ['~'], String.ofList ['+']] := rfl
  rw [detect, listed, ending?]
  simp only [List.find?_cons, each, List.find?_nil]
  cases selector.toList.getLast? with
  | none => rfl
  | some d =>
    by_cases greater : d = '>'
    · subst greater; rfl
    · by_cases tilde : d = '~'
      · subst tilde; rfl
      · by_cases plus : d = '+'
        · subst plus; rfl
        · have other : isCombinator d = false := by simp [isCombinator, greater, tilde, plus]
          have differs {e : Char} (ne : d ≠ e) : (some d == some e) = false := by simpa using ne
          rw [Option.filter_some, other, differs greater, differs tilde, differs plus]
          rfl

theorem remainingCommon (ends : ending? selector.toList = some c) :
    remaining (.ofList [c]) selector = Text.trim selector.toList.dropLast := by
  refine remainingFront ?_
  rw [String.toList_ofList, (endingCases ends).2]

theorem remainingTerms (ends : ending? selector.toList = some c) :
    terms (remaining (.ofList [c]) selector) ++ [[c]] = terms selector.toList := by
  obtain ⟨combinator, whole⟩ := endingCases ends
  rw [remainingCommon ends, termsTrim, ← termsEnd combinator, whole]

def given (pending : Option Char) (selector : String) : String :=
  match pending with
  | some c => prefixBranches (.ofList [c]) selector
  | none => selector

def givenBranch (pending : Option Char) (branch : List Char) : List Char :=
  match pending with
  | some c => prefixBranch [c] branch
  | none => branch

variable {pending : Option Char}

theorem prefixEnding (combinator selector : String) :
    ending? (prefixBranches combinator selector).toList = ending? selector.toList := by
  rw [prefixBranches, ending?, ending?, String.toList_ofList, prefixLast, Text.joinSplit]

theorem givenEnding (pending : Option Char) (selector : String) :
    ending? (given pending selector).toList = ending? selector.toList := by
  cases pending with
  | none => rfl
  | some c => exact prefixEnding _ selector

theorem prefixBranchMem {combinator branch : List Char} {d : Char}
    (inside : d ∈ prefixBranch combinator branch) : d ∈ combinator ∨ d = ' ' ∨ d ∈ branch := by
  have whole := Text.leadingTrimStart branch
  unfold prefixBranch at inside
  split at inside
  · exact .inr (.inr inside)
  · rw [← whole]
    simp only [List.mem_append, List.mem_cons] at inside ⊢
    tauto

theorem givenBranches (known : ∀ c ∈ pending, isCombinator c = true) (selector : String) :
    branches (given pending selector) = (branches selector).map (givenBranch pending) := by
  cases pending with
  | none => exact (List.map_id _).symm
  | some c =>
    have other : c ≠ ',' := by
      rintro rfl
      cases known ',' rfl
    rw [given, prefixBranches, branches, String.toList_ofList, String.toList_ofList]
    refine Text.splitJoin ?_ ?_
    · obtain ⟨part, parts, split⟩ := Text.splitOnCons ',' selector.toList
      simp [split]
    · intro part inside
      obtain ⟨branch, listed, rfl⟩ := List.mem_map.mp inside
      intro comma
      rcases prefixBranchMem comma with own | space | before
      · exact other (List.mem_singleton.mp own).symm
      · cases space
      · exact Text.splitOnFree branch listed before

theorem givenTerms (known : ∀ c ∈ pending, isCombinator c = true) {branch : List Char}
    (visible : pending ≠ none → trimStart branch ≠ []) :
    terms (givenBranch pending branch) = pending.toList.map ([·]) ++ terms branch := by
  cases pending with
  | none => rfl
  | some c =>
    have whole := Text.leadingTrimStart branch
    have shown := visible (by simp)
    rw [givenBranch, prefixBranch]
    split
    · next blank => exact absurd blank shown
    · conv => rhs; rw [← whole]
      rw [List.append_assoc, termsLeading (Text.leadingBlank branch),
        termsLeading (Text.leadingBlank branch), List.singleton_append,
        termsCombinator (known c rfl), termsBlank rfl]
      rfl

theorem givenWhole (whole : ',' ∉ selector.toList) :
    (given pending selector).toList = givenBranch pending selector.toList := by
  cases pending with
  | none => rfl
  | some c =>
    rw [given, prefixBranches, Text.splitOnWhole whole, List.map_singleton, List.intercalate_singleton,
      String.toList_ofList, String.toList_ofList]
    rfl

theorem givenBlank {branch : List Char} (blank : trimStart branch = []) :
    givenBranch pending branch = branch := by
  cases pending with
  | none => rfl
  | some c => rw [givenBranch, prefixBranch, blank]

/-! ## Nodes under the fix -/

def pendingText (pending : Option Char) : Option String := pending.map fun c => .ofList [c]

theorem setSelectorSelector {data : NodeData} (rule : data.selector? = some selector) (other : String) :
    (data.setSelector other).selector? = some other := by
  unfold NodeData.selector? at rule
  unfold NodeData.setSelector
  split at rule
  · rfl
  · cases rule

theorem prefixedSelector (combinator : String) (data : NodeData) :
    (prefixSelector combinator data).selector? = data.selector?.map (prefixBranches combinator) := by
  unfold prefixSelector
  cases rule : data.selector? with
  | none => exact rule
  | some selector => exact setSelectorSelector rule _

theorem carrySelector (pending : Option Char) (data : NodeData) :
    (carry (pendingText pending) data).selector? = data.selector?.map (given pending) := by
  cases pending with
  | none =>
    change data.selector? = _
    cases data.selector? <;> rfl
  | some c => exact prefixedSelector _ data

theorem carriedOther {data : NodeData} (other : data.selector? = none) :
    (carry (pendingText pending) data).selector? = none := by
  rw [carrySelector, other, Option.map_none]

theorem carriedRule {data : NodeData} (rule : data.selector? = some selector) :
    (carry (pendingText pending) data).selector? = some (given pending selector) := by
  rw [carrySelector, rule, Option.map_some]

theorem faultCommon (severity : Severity) (data : NodeData) :
    (including [] severity).fault? data = data.selector?.bind fun selector =>
      (ending? selector.toList).map fun c => (String.ofList [c], selector) := by
  unfold fault?
  congr 1
  funext selector
  rw [detectCommon, Option.map_map]
  rfl

def misplaces (data : NodeData) : Bool :=
  data.selector?.any fun selector => (ending? selector.toList).isSome

theorem misplacesOther {data : NodeData} (other : data.selector? = none) : misplaces data = false := by
  rw [misplaces, other, Option.any_none]

theorem misplacesRule {data : NodeData} (rule : data.selector? = some selector) :
    misplaces data = (ending? selector.toList).isSome := by
  rw [misplaces, rule, Option.any_some]

theorem faultNever (severity : Severity) {data : NodeData}
    (settled : ∀ selector ∈ data.selector?, ending? selector.toList = none) (pending : Option String) :
    (including [] severity).fault? (carry pending data) = none := by
  rw [faultCommon, Option.bind_eq_none_iff]
  cases pending with
  | none =>
    intro selector rule
    rw [settled selector rule, Option.map_none]
  | some combinator =>
    intro given rule
    have prefixed := (prefixedSelector combinator data).symm.trans rule
    obtain ⟨selector, before, rfl⟩ := Option.map_eq_some_iff.mp prefixed
    rw [prefixEnding, settled selector before, Option.map_none]

theorem faultCarried (severity : Severity) (pending : Option Char) (data : NodeData) :
    (including [] severity).fault? (carry (pendingText pending) data) =
      data.selector?.bind fun selector =>
        (ending? selector.toList).map fun c => (String.ofList [c], given pending selector) := by
  rw [faultCommon, carrySelector, Option.bind_map]
  congr 1
  funext selector
  simp only [Function.comp_apply, givenEnding]

end SheetLint.CombinatorRule
