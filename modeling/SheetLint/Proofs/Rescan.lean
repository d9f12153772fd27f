import SheetLint.Proofs.Headings
import SheetLint.Proofs.Marks

/-! Reading back what was read, with other text behind it. Each kind of piece has the condition on what
follows under which it is read back as the same kind; where the condition fails, it is not. -/
namespace SheetLint
open Text (isBlank isAsciiBlank trimEnd trailing trimStart leading)
open Scan (State dangling)

theorem marksLayout {layout : List Char} (blank : Layout layout) (text : List Char) :
    marks (layout ++ text) = marks text := by
  have front := layoutTaken text
  have whole := List.takeWhile_append_dropWhile (p := isLayout) (l := text)
  have both : Layout (layout ++ text.takeWhile isLayout) := by
    intro c inside
    rcases List.mem_append.mp inside with first | second
    · exact blank c first
    · exact front c second
  cases rest : text.dropWhile isLayout with
  | nil =>
    rw [rest, List.append_nil] at whole
    rw [whole] at front both
    rw [marksEnd both, marksEnd front]
  | cons c body =>
    obtain ⟨-, visible⟩ := layoutDropped rest
    rw [rest] at whole
    rw [← whole, ← List.append_assoc, marksStep both visible, marksStep front visible]

/-! ## Comments -/

theorem closedElsewhere {body text rest : List Char} (closed : Scan.closeComment body = some (text, rest))
    (more : List Char) : Scan.closeComment (text ++ '*' :: '/' :: more) = some (text, more) := by
  fun_induction Scan.closeComment body generalizing text with
  | case1 => cases closed
  | case2 cs =>
    cases closed
    rfl
  | case3 c cs other ih =>
    obtain ⟨⟨inner, after⟩, found, same⟩ := Option.map_eq_some_iff.mp closed
    cases same
    have whole := Scan.closeCommentWhole found
    change Scan.closeComment (c :: (inner ++ '*' :: '/' :: more)) = some (c :: inner, more)
    rw [Scan.closeComment, ih found]
    · rfl
    · rintro tail rfl next
      cases inner with
      | nil => cases next
      | cons d ds =>
        cases next
        exact other _ rfl whole

theorem commentReads {body text rest : List Char} (closed : Scan.closeComment body = some (text, rest))
    (more : List Char) :
    scanMark ('/' :: '*' :: (text ++ '*' :: '/' :: more)) =
      some (some (.comment (.ofList text) false), more) :=
  (scanMarkExact "" 0).mpr ⟨_, .comment (closedElsewhere closed more), rfl⟩

theorem lineTaken {text : List Char} (line : '\n' ∉ text) (more : List Char) :
    (text ++ more).takeWhile (· != '\n') = text ++ more.takeWhile (· != '\n') ∧
      (text ++ more).dropWhile (· != '\n') = more.dropWhile (· != '\n') := by
  have inLine : ∀ c ∈ text, (c != '\n') = true := by
    intro c inside
    rw [bne_iff_ne]
    rintro rfl
    exact line inside
  exact ⟨List.takeWhile_append_of_pos inLine, List.dropWhile_append_of_pos inLine⟩

theorem lineMark {text : List Char} (line : '\n' ∉ text) (more : List Char) :
    scanMark ('/' :: '/' :: (text ++ more)) =
      some (some (.comment (.ofList (text ++ more.takeWhile (· != '\n'))) true),
        more.dropWhile (· != '\n')) := by
  obtain ⟨take, drop⟩ := lineTaken line more
  rw [← take, ← drop]
  exact (scanMarkExact "" 0).mpr ⟨_, .line _, rfl⟩

/-! ## Headings -/

theorem plainStartTwo (a b : Char) (text more : List Char) :
    plainStart (a :: b :: text) = plainStart (a :: b :: more) := by
  unfold plainStart
  split
  · next same => cases same; rfl
  · next same => cases same; rfl
  · next same => cases same; rfl
  · next same => cases same; rfl
  · next close comment line named =>
    refine (plainOther ?_ ?_ ?_ ?_).symm
    · rintro rest ⟨⟩
      exact close _ rfl
    · rintro rest ⟨⟩
      exact comment _ rfl
    · rintro rest ⟨⟩
      exact line _ rfl
    · rintro rest ⟨⟩
      exact named _ rfl

theorem plainStartBrace (text more : List Char) :
    plainStart (text ++ '\x7b' :: more) = plainStart (text ++ ['\x7b']) := by
  match text with
  | [] => rfl
  | [a] => exact plainStartTwo a _ _ _
  | a :: b :: rest => exact plainStartTwo a b _ _

theorem headingRun {selector between : List Char} (heading : Heading selector between) :
    ∃ s, (State.start 0).passes (selector ++ between) = some s ∧ s.outside = true := by
  obtain ⟨s, run, out⟩ := heading.ends
  cases between with
  | nil => exact ⟨s, by rw [List.append_nil, run], out⟩
  | cons c cs =>
    refine ⟨State.start 0, ?_, rfl⟩
    rw [State.passesAppend, run, Option.bind_some]
    exact State.outsideBlanks heading.blank (List.cons_ne_nil _ _) out

theorem headingReads {selector between : List Char} (heading : Heading selector between)
    (plain : plainStart (selector ++ between ++ ['\x7b']) = true)
    (free : dangling (selector ++ between) = none) (more : List Char) :
    scanMark (selector ++ between ++ '\x7b' :: more) =
      some (some (.rule (.ofList selector)), more) := by
  obtain ⟨s, run, out⟩ := headingRun heading
  have stop : s.stops '\x7b' = true := (Scan.danglingExact run out).2.mp free
  have ok := State.preludeComplete 0 run (show s.endsAt ('\x7b' :: more) = true from stop)
  rw [← plainStartBrace _ more] at plain
  have scanned : Scanned "" 0 _ _ _ := .rule plain ok
  rw [Text.trimEndBlanks heading.trimmed heading.blank] at scanned
  exact (scanMarkExact "" 0).mpr ⟨_, scanned, rfl⟩

theorem preludeBeyond {offset depth : Nat} {front more text rest : List Char} {c : Char} {s : State}
    (run : (State.start depth).passes front = some s) (goes : s.stops c = false)
    (ok : Scan.prelude offset depth (front ++ c :: more) = .ok (text, rest)) :
    ∃ others, text = front ++ c :: others := by
  obtain ⟨whole, t, textRun, stop⟩ := State.preludeExact.mp ok
  have further : (State.start depth).passes (front ++ [c]) = some (s.step c) := by
    rw [State.passesAppend, run, Option.bind_some, State.passesCons goes, State.passes]
  rw [← List.singleton_append, ← List.append_assoc] at whole
  obtain ⟨others, rfl⟩ := State.passesWithin whole further textRun stop
  exact ⟨others, by simp⟩

theorem headingMisreads {selector between : List Char} (heading : Heading selector between)
    (bad : plainStart (selector ++ between ++ ['\x7b']) = false ∨ dangling (selector ++ between) ≠ none)
    {more rest : List Char} {m : Option Kind}
    (found : scanMark (selector ++ between ++ '\x7b' :: more) = some (m, rest)) :
    m ≠ some (.rule (.ofList selector)) := by
  obtain ⟨s, run, out⟩ := headingRun heading
  obtain ⟨piece, scanned, rfl⟩ := (scanMarkExact "" 0).mp found
  intro same
  generalize whole : selector ++ between ++ '\x7b' :: more = cs at scanned
  cases scanned with
  | @rule cs text rest plain head =>
    subst whole
    rw [plainStartBrace] at plain
    rcases bad with notPlain | held
    · cases plain.symm.trans notPlain
    · have goes : s.stops '\x7b' = false := by
        rw [Bool.eq_false_iff]
        exact fun stops => held ((Scan.danglingExact run out).2.mpr stops)
      obtain ⟨others, rfl⟩ := preludeBeyond run goes head
      have equal := congrArg String.toList (Kind.rule.inj (Option.some.inj same))
      rw [String.toList_ofList, String.toList_ofList, Text.trimEndVisible (by decide)] at equal
      have longer := congrArg List.length equal
      simp only [List.length_append, List.length_cons] at longer
      omega
  | _ => cases same

/-! ## Declarations -/

def DeclarationText.kind (d : DeclarationText) : Kind :=
  .declaration (.ofList d.prop) (.ofList d.value) (!d.important.isEmpty)

theorem coreParts {text : List Char} {d : DeclarationText}
    (parts : DeclarationText.ofText? text = some d) :
    ∃ name rest, Text.splitFirst? ':' text = some (name, rest) ∧
      d.core = name ++ ':' :: (leading rest ++ trimEnd (trimStart rest)) ∧
      d.prop = trimEnd name ∧ (d.value, d.important) = splitImportant (trimEnd (trimStart rest)) := by
  obtain ⟨⟨name, rest⟩, cut, rfl⟩ := Option.map_eq_some_iff.mp parts
  refine ⟨name, rest, cut, ?_, rfl, rfl⟩
  dsimp only [DeclarationText.core]
  rw [List.append_assoc _ (splitImportant _).1, importantWhole]
  simp

theorem cutAgain {name rest text more : List Char} (cut : Text.splitFirst? ':' text = some (name, rest)) :
    DeclarationText.ofText? (name ++ ':' :: (leading rest ++ more)) =
      some ⟨trimEnd name, trailing name ++ ':' :: leading (leading rest ++ more),
        (splitImportant (trimEnd (trimStart more))).1, (splitImportant (trimEnd (trimStart more))).2,
        trailing (trimStart more)⟩ := by
  rw [DeclarationText.ofText?, Text.splitFirstAgain cut, Option.map_some]
  dsimp only
  rw [Text.trimStartBlanks (Text.leadingBlank rest)]

theorem writtenHead (rest : List Char) :
    ∀ c ∈ (trimEnd (trimStart rest)).head?, isBlank c = false := by
  intro c first
  refine Text.trimStartHead rest c ?_
  rw [← Text.trimEndTrailing (trimStart rest), List.head?_append, Option.mem_def.mp first]
  rfl

theorem ofTextBlanks {text blanks : List Char} {d : DeclarationText}
    (parts : DeclarationText.ofText? text = some d) (blank : ∀ c ∈ blanks, isBlank c = true) :
    ∃ again, DeclarationText.ofText? (d.core ++ blanks) = some again ∧ again.kind = d.kind ∧
      (again.after = [] ∨ again.after = blanks) := by
  obtain ⟨name, rest, cut, core, prop, split⟩ := coreParts parts
  rw [core, List.append_assoc, List.cons_append, List.append_assoc, cutAgain cut]
  refine ⟨_, rfl, ?_⟩
  dsimp only [DeclarationText.kind]
  rw [prop]
  have last := Text.trimEndLast (trimStart rest)
  have first := writtenHead rest
  generalize trimEnd (trimStart rest) = written at split last first
  cases written with
  | nil =>
    have none : trimStart ([] ++ blanks) = [] := by
      rw [← List.append_nil blanks, List.nil_append, Text.trimStartBlanks blank]
      rfl
    rw [none]
    obtain ⟨value, important⟩ := Prod.mk.inj split
    rw [value, important]
    exact ⟨rfl, .inl rfl⟩
  | cons c cs =>
    have whole : trimStart (c :: cs ++ blanks) = c :: cs ++ blanks := Text.trimStartVisible first
    rw [whole, Text.trimEndBlanks last blank, Text.trailingBlanks last blank]
    obtain ⟨value, important⟩ := Prod.mk.inj split
    rw [value, important]
    exact ⟨rfl, .inr rfl⟩

theorem importantEnds {value : List Char} (last : value.getLast? = some '\\') :
    (splitImportant value).2 = [] := by
  unfold splitImportant
  split
  · next head tail cut =>
    split
    · next flag =>
      exfalso
      rw [Text.splitLastWhole cut, List.getLast?_append, List.getLast?_cons] at last
      have inside : '\\' ∈ tail := by
        cases behind : tail.getLast? with
        | none =>
          rw [behind] at last
          cases last
        | some c =>
          rw [behind] at last
          obtain rfl := Option.some.inj last
          exact List.mem_of_getLast? behind
      have lower : Char.toLower '\\' ∈ (Text.trim tail).map Char.toLower :=
        List.mem_map_of_mem (Text.memTrim inside (by decide))
      rw [beq_iff_eq.mp flag] at lower
      exact absurd lower (by decide)
    · rfl
  · rfl

theorem ofTextLonger {text more : List Char} {d again : DeclarationText} {c : Char}
    (parts : DeclarationText.ofText? text = some d) (last : d.core.getLast? = some '\\')
    (visible : isBlank c = false)
    (parts' : DeclarationText.ofText? (d.core ++ c :: more) = some again) : again.kind ≠ d.kind := by
  obtain ⟨name, rest, cut, core, prop, split⟩ := coreParts parts
  have first := writtenHead rest
  rw [core, List.append_assoc, List.cons_append, List.append_assoc, cutAgain cut] at parts'
  rw [core] at last
  have ends : (trimEnd (trimStart rest)).getLast? = some '\\' := by
    have blank := Text.leadingBlank rest
    generalize trimEnd (trimStart rest) = written at last
    generalize leading rest = blanks at last blank
    cases written with
    | nil =>
      rw [List.append_nil, List.getLast?_append, List.getLast?_cons] at last
      cases behind : blanks.getLast? with
      | none =>
        rw [behind] at last
        cases last
      | some c =>
        rw [behind] at last
        obtain rfl := Option.some.inj last
        exact absurd (blank _ (List.mem_of_getLast? behind)) (by decide)
    | cons c cs =>
      rw [← List.cons_append, List.getLast?_append, List.getLast?_append] at last
      rw [List.getLast?_cons] at last ⊢
      exact last
  generalize trimEnd (trimStart rest) = written at split first parts' ends
  have important : d.important = [] := (Prod.mk.inj split).2.trans (importantEnds ends)
  have value : d.value = written := by
    have whole := importantWhole written
    rw [← split] at whole
    simpa [important] using whole
  have shown : trimStart (written ++ c :: more) = written ++ c :: more := by
    apply Text.trimStartVisible
    cases written with
    | nil =>
      rintro _ ⟨⟩
      exact visible
    | cons d ds => exact first
  rw [shown, Text.trimEndVisible visible] at parts'
  intro same
  rw [← Option.some.inj parts'] at same
  obtain ⟨-, values, flags⟩ := Kind.declaration.inj same
  have whole := importantWhole (written ++ c :: trimEnd more)
  have none : (splitImportant (written ++ c :: trimEnd more)).2 = [] := by
    simpa [important] using flags
  have values' : (splitImportant (written ++ c :: trimEnd more)).1 = d.value := String.ofList_inj.mp values
  rw [none, values', value, List.append_nil] at whole
  have longer := congrArg List.length whole
  simp at longer

/-! ## Statements that may be open -/

theorem layoutAscii {blanks : List Char} (ascii : ∀ c ∈ blanks, isAsciiBlank c = true) :
    Layout blanks := by
  intro c inside
  rw [isLayout, ascii c inside, Bool.true_or]

theorem marksSemicolon {blanks : List Char} (ascii : ∀ c ∈ blanks, isAsciiBlank c = true)
    (rest : List Char) : marks (blanks ++ ';' :: rest) = marks rest := by
  have semicolon : Layout [';'] := by
    intro c inside
    rw [List.mem_singleton.mp inside]
    rfl
  rw [marksLayout (layoutAscii ascii), ← List.singleton_append, marksLayout semicolon]

def Tail (text : List Char) : Prop := ∃ layout rest, text = layout ++ rest ∧ Layout layout ∧ AtEnd rest

/- A statement in this state is over before the text given. -/
def Closes (s : State) (text : List Char) : Prop :=
  ∃ blanks rest t, text = blanks ++ rest ∧ (∀ c ∈ blanks, isAsciiBlank c = true) ∧
    s.passes blanks = some t ∧ t.endsAt rest = true ∧ (AtEnd rest ∨ ∃ more, rest = ';' :: more)

theorem outsideEndsAt {s : State} {rest : List Char} (out : s.outside = true) (free : s.spot ≠ .escape)
    (stop : AtEnd rest ∨ ∃ more, rest = ';' :: more) : s.endsAt rest = true := by
  rcases stop with (rfl | ⟨more, rfl⟩) | ⟨more, rfl⟩
  · obtain ⟨spot, depth⟩ := s
    cases spot <;> simp_all [State.endsAt, State.hidden, State.outside]
  · exact State.outsideEnds out free (.inr rfl)
  · exact State.outsideEnds out free (.inl rfl)

theorem layoutSplit {layout : List Char} (blank : Layout layout) :
    ∃ blanks rest, layout = blanks ++ rest ∧ (∀ c ∈ blanks, isAsciiBlank c = true) ∧
      (rest = [] ∨ ∃ more, rest = ';' :: more) := by
  refine ⟨layout.takeWhile isAsciiBlank, layout.dropWhile isAsciiBlank,
    List.takeWhile_append_dropWhile.symm, fun c inside => List.mem_takeWhile_imp inside, ?_⟩
  cases rest : layout.dropWhile isAsciiBlank with
  | nil => exact .inl rfl
  | cons c cs =>
    have other := List.head?_dropWhile_not isAsciiBlank layout
    rw [rest] at other
    have inside := blank c ((List.dropWhile_sublist isAsciiBlank).subset (rest ▸ List.mem_cons_self))
    rw [isLayout, show isAsciiBlank c = false from other, Bool.false_or, beq_iff_eq] at inside
    exact .inr ⟨cs, by rw [inside]⟩

theorem closesOutside {s : State} {text : List Char} (out : s.outside = true)
    (follows : Tail text ∨ ∃ more, text = ';' :: more)
    (free : s.spot = .escape → text.head? ≠ some ';' ∧ text.head? ≠ some '\x7d') : Closes s text := by
  -- the layout up to its first semicolon, or all of it
  obtain ⟨blanks, rest, rfl, ascii, stop⟩ : ∃ blanks rest, text = blanks ++ rest ∧
      (∀ c ∈ blanks, isAsciiBlank c = true) ∧ (AtEnd rest ∨ ∃ more, rest = ';' :: more) := by
    rcases follows with ⟨layout, rest, rfl, blank, stop⟩ | ended
    · obtain ⟨blanks, others, rfl, ascii, parts⟩ := layoutSplit blank
      refine ⟨blanks, others ++ rest, List.append_assoc _ _ _, ascii, ?_⟩
      rcases parts with rfl | ⟨more, rfl⟩
      · exact .inl stop
      · exact .inr ⟨more ++ rest, rfl⟩
    · exact ⟨[], text, rfl, by simp, .inr ended⟩
  cases blanks with
  | nil =>
    by_cases held : s.spot = .escape
    · obtain ⟨semicolon, brace⟩ := free held
      rcases stop with (rfl | ⟨more, rfl⟩) | ⟨more, rfl⟩
      · refine ⟨[], [], s, rfl, ascii, rfl, ?_, .inl (.inl rfl)⟩
        rw [State.endsAt, State.hidden, held]
        rfl
      · exact absurd rfl brace
      · exact absurd rfl semicolon
    · exact ⟨[], rest, s, rfl, ascii, rfl, outsideEndsAt out held stop, stop⟩
  | cons c cs =>
    have run := State.outsideBlanks (fun d inside => Text.blankOfAscii (ascii d inside))
      (List.cons_ne_nil c cs) out
    exact ⟨c :: cs, rest, State.start 0, rfl, ascii, run, outsideEndsAt rfl (by decide) stop, stop⟩

theorem openReads {text more : List Char} {d : DeclarationText} {s : State}
    (parts : DeclarationText.ofText? text = some d)
    (plain : ∀ more, plainStart (d.core ++ more) = true)
    (run : (State.start 0).passes d.core = some s) (closes : Closes s more) :
    ∃ rest, scanMark (d.core ++ more) = some (some d.kind, rest) ∧ marks rest = marks more := by
  obtain ⟨blanks, rest, t, rfl, ascii, further, stop, ending⟩ := closes
  have blank : ∀ c ∈ blanks, isBlank c = true := fun c inside =>
    Text.blankOfAscii (ascii c inside)
  have whole : (State.start 0).passes (d.core ++ blanks) = some t := by
    rw [State.passesAppend, run, Option.bind_some, further]
  have ok := State.preludeComplete 0 whole stop
  have begins := plain (blanks ++ rest)
  obtain ⟨again, parts', kind, after⟩ := ofTextBlanks parts blank
  rw [← List.append_assoc] at begins ⊢
  rcases ending with stop | ⟨behind, rfl⟩
  · refine ⟨again.after ++ rest, (scanMarkExact "" 0).mpr ⟨_, .opened begins ok stop parts', ?_⟩, ?_⟩
    · exact congrArg some kind
    · rcases after with none | all
      · rw [none, List.nil_append, marksLayout (layoutAscii ascii)]
      · rw [all]
  · refine ⟨behind, (scanMarkExact "" 0).mpr ⟨_, .ended begins ok parts', congrArg some kind⟩, ?_⟩
    exact (marksSemicolon ascii behind).symm

theorem endedReads {text more : List Char} {d : DeclarationText} {s : State}
    (parts : DeclarationText.ofText? text = some d) (plain : ∀ more, plainStart (text ++ more) = true)
    (run : (State.start 0).passes text = some s) (stop : s.stops ';' = true) :
    scanMark (text ++ ';' :: more) = some (some d.kind, more) :=
  (scanMarkExact "" 0).mpr ⟨_, .ended (plain _) (State.preludeComplete 0 run stop) parts, rfl⟩

theorem openMisreads {text more rest : List Char} {d : DeclarationText} {s : State} {c : Char}
    {m : Option Kind} (parts : DeclarationText.ofText? text = some d)
    (run : (State.start 0).passes d.core = some s) (out : s.outside = true) (held : s.spot = .escape)
    (visible : isBlank c = false) (found : scanMark (d.core ++ c :: more) = some (m, rest)) :
    m ≠ some d.kind := by
  obtain ⟨piece, scanned, rfl⟩ := (scanMarkExact "" 0).mp found
  have last := Scan.danglingLast ((Scan.danglingExact run out).1.mpr held)
  intro same
  generalize whole : d.core ++ c :: more = cs at scanned
  cases scanned with
  | ended plain body parts' =>
    subst whole
    obtain ⟨others, rfl⟩ := preludeBeyond run (State.outsideEscape held) body
    exact ofTextLonger parts last visible parts' (Option.some.inj same)
  | opened plain body stop parts' =>
    subst whole
    obtain ⟨others, rfl⟩ := preludeBeyond run (State.outsideEscape held) body
    exact ofTextLonger parts last visible parts' (Option.some.inj same)
  | _ => cases same

/-! ## At-rules -/

structure Named (name blanks rest : List Char) : Prop where
  letters : ∀ c ∈ name, endsName c = false
  spaces : ∀ c ∈ blanks, isAsciiBlank c = true
  first : ∀ c ∈ rest.head?, isAsciiBlank c = false
  apart : blanks = [] → ∀ c ∈ rest.head?, endsName c = true

theorem namedOfText (cs : List Char) :
    Named (AtRuleName.ofText cs).name (AtRuleName.ofText cs).blanks (AtRuleName.ofText cs).rest where
  letters := by
    intro c inside
    simpa using List.mem_takeWhile_imp inside
  spaces := fun c inside => List.mem_takeWhile_imp inside
  first := by
    intro c first
    have other := List.head?_dropWhile_not isAsciiBlank (cs.dropWhile fun c => !endsName c)
    rw [AtRuleName.ofText, Option.mem_def] at first
    rw [first] at other
    exact other
  apart := by
    intro none c first
    have whole := List.takeWhile_append_dropWhile (p := isAsciiBlank)
      (l := cs.dropWhile fun c => !endsName c)
    have other := List.head?_dropWhile_not (fun c => !endsName c) cs
    rw [AtRuleName.ofText] at none first
    dsimp only at none first
    rw [none, List.nil_append] at whole
    rw [whole, Option.mem_def] at first
    rw [first] at other
    simpa using other

theorem ofTextNamed {name blanks rest : List Char} (named : Named name blanks rest) :
    AtRuleName.ofText (name ++ (blanks ++ rest)) = ⟨name, blanks, rest⟩ := by
  have letters : ∀ c ∈ name, (!endsName c) = true := fun c inside => by rw [named.letters c inside]; rfl
  have stopName : (blanks ++ rest).takeWhile (fun c => !endsName c) = [] ∧
      (blanks ++ rest).dropWhile (fun c => !endsName c) = blanks ++ rest := by
    cases whole : blanks ++ rest with
    | nil => exact ⟨rfl, rfl⟩
    | cons c cs =>
      have ends : endsName c = true := by
        cases blanks with
        | nil => exact named.apart rfl c (by rw [show rest = c :: cs from whole]; rfl)
        | cons b bs =>
          obtain ⟨rfl, -⟩ := List.cons.inj whole
          rw [endsName, named.spaces b List.mem_cons_self]
          rfl
      rw [List.takeWhile_cons, List.dropWhile_cons, ends]
      exact ⟨rfl, rfl⟩
  have stopBlanks : rest.takeWhile isAsciiBlank = [] ∧ rest.dropWhile isAsciiBlank = rest := by
    cases rest with
    | nil => exact ⟨rfl, rfl⟩
    | cons c cs =>
      rw [List.takeWhile_cons, List.dropWhile_cons, named.first c rfl]
      exact ⟨rfl, rfl⟩
  rw [AtRuleName.ofText, List.takeWhile_append_of_pos letters, List.dropWhile_append_of_pos letters,
    stopName.1, stopName.2, List.takeWhile_append_of_pos named.spaces,
    List.dropWhile_append_of_pos named.spaces, stopBlanks.1, stopBlanks.2, List.append_nil,
    List.append_nil]

theorem Named.front {name blanks front rest : List Char} (named : Named name blanks (front ++ rest)) :
    Named name blanks front := by
  have first (c : Char) (head : c ∈ front.head?) : c ∈ (front ++ rest).head? := by
    rw [List.head?_append, Option.mem_def.mp head]
    rfl
  exact ⟨named.letters, named.spaces, fun c head => named.first c (first c head),
    fun none c head => named.apart none c (first c head)⟩

theorem Named.append {name blanks text : List Char} (named : Named name blanks text) {c : Char}
    (visible : isAsciiBlank c = false) (ends : endsName c = true) (more : List Char) :
    Named name blanks (text ++ c :: more) := by
  cases text with
  | nil =>
    refine ⟨named.letters, named.spaces, ?_, ?_⟩
    · rintro _ ⟨⟩
      exact visible
    · rintro - _ ⟨⟩
      exact ends
  | cons d ds => exact ⟨named.letters, named.spaces, named.first, named.apart⟩

variable {name blanks params : List Char} {s : State}

theorem atBlockReads {text : List Char} (named : Named name blanks text)
    (run : (State.start 0).passes text = some s) (stop : s.stops '\x7b' = true) (more : List Char) :
    scanMark ('@' :: (name ++ (blanks ++ (text ++ '\x7b' :: more)))) =
      some (some (.atRule (.ofList name) (.ofList (trimEnd text)) true), more) := by
  have whole := ofTextNamed (named.append (c := '\x7b') rfl rfl more)
  exact (scanMarkExact "" 0).mpr ⟨_, .atBlock whole (State.preludeComplete _ run stop), rfl⟩

theorem atEndedReads {text : List Char} (named : Named name blanks text)
    (run : (State.start 0).passes text = some s) (stop : s.stops ';' = true) (more : List Char) :
    scanMark ('@' :: (name ++ (blanks ++ (text ++ ';' :: more)))) =
      some (some (.atRule (.ofList name) (.ofList (trimEnd text)) false), more) := by
  have whole := ofTextNamed (named.append (c := ';') rfl rfl more)
  exact (scanMarkExact "" 0).mpr ⟨_, .atEnded whole (State.preludeComplete _ run stop), rfl⟩

theorem Named.before {text rest : List Char} (named : Named name blanks text)
    (stop : AtEnd rest ∨ ∃ more, rest = ';' :: more) : Named name blanks (text ++ rest) := by
  rcases stop with (rfl | ⟨more, rfl⟩) | ⟨more, rfl⟩
  · rwa [List.append_nil]
  · exact named.append rfl rfl more
  · exact named.append rfl rfl more

theorem closesNamed {more : List Char} (named : Named name blanks params)
    (trimmed : ∀ c ∈ params.getLast?, isBlank c = false)
    (run : (State.start 0).passes params = some s) (closes : Closes s more) :
    ∃ spaces text rest t, blanks ++ (params ++ more) = spaces ++ (text ++ rest) ∧
      Named name spaces (text ++ rest) ∧ (State.start 0).passes text = some t ∧
      t.endsAt rest = true ∧ trimEnd text = params ∧ (AtEnd rest ∨ ∃ more, rest = ';' :: more) ∧
      (∀ c ∈ trailing text, isAsciiBlank c = true) ∧ marks (trailing text ++ rest) = marks more := by
  obtain ⟨gap, rest, t, rfl, ascii, further, stop, ending⟩ := closes
  cases params with
  | nil =>
    have wider : Named name (blanks ++ gap) [] := by
      refine ⟨named.letters, ?_, by simp, by simp⟩
      exact List.forall_mem_append.mpr ⟨named.spaces, ascii⟩
    refine ⟨blanks ++ gap, [], rest, State.start 0, by simp, wider.before ending, rfl,
      outsideEndsAt rfl (by decide) ending, rfl, ending, by simp [trailing], ?_⟩
    rw [marksLayout (layoutAscii ascii)]
    rfl
  | cons c cs =>
    have blank : ∀ c ∈ gap, isBlank c = true := fun c inside =>
      Text.blankOfAscii (ascii c inside)
    have longer : Named name blanks (c :: cs ++ gap) :=
      ⟨named.letters, named.spaces, named.first, named.apart⟩
    refine ⟨blanks, c :: cs ++ gap, rest, t, by simp, longer.before ending, ?_, stop,
      Text.trimEndBlanks trimmed blank, ending, ?_, ?_⟩
    · rw [State.passesAppend, run, Option.bind_some, further]
    · rwa [Text.trailingBlanks trimmed blank]
    · rw [Text.trailingBlanks trimmed blank]

theorem atOpenReads {more : List Char} (named : Named name blanks params)
    (trimmed : ∀ c ∈ params.getLast?, isBlank c = false)
    (run : (State.start 0).passes params = some s) (closes : Closes s more) :
    ∃ rest, scanMark ('@' :: (name ++ (blanks ++ (params ++ more)))) =
        some (some (.atRule (.ofList name) (.ofList params) false), rest) ∧
      marks rest = marks more := by
  obtain ⟨spaces, text, rest, t, whole, named', textRun, stop, rfl, ending, ascii, same⟩ :=
    closesNamed named trimmed run closes
  have again := ofTextNamed named'
  rw [whole]
  rcases ending with atEnd | ⟨behind, rfl⟩
  · exact ⟨trailing text ++ rest, (scanMarkExact "" 0).mpr
      ⟨_, .atOpen again (State.preludeComplete _ textRun stop) atEnd, rfl⟩, same⟩
  · refine ⟨behind, (scanMarkExact "" 0).mpr
      ⟨_, .atEnded again (State.preludeComplete _ textRun stop), rfl⟩, ?_⟩
    rw [← same, marksSemicolon ascii]

theorem atOpenMisreads {more rest : List Char} {c : Char} {m : Option Kind}
    (named : Named name blanks params) (run : (State.start 0).passes params = some s)
    (held : s.spot = .escape) (visible : isBlank c = false)
    (found : scanMark ('@' :: (name ++ (blanks ++ (params ++ c :: more)))) = some (m, rest)) :
    m ≠ some (.atRule (.ofList name) (.ofList params) false) := by
  have longer : Named name blanks (params ++ c :: more) := by
    cases params with
    | nil =>
      cases run
      cases held
    | cons d ds => exact ⟨named.letters, named.spaces, named.first, named.apart⟩
  have again := ofTextNamed longer
  have beyond {offset : Nat} {text rest : List Char}
      (ok : Scan.prelude offset 0 (params ++ c :: more) = .ok (text, rest)) :
      trimEnd text ≠ params := by
    obtain ⟨others, rfl⟩ := preludeBeyond run (State.outsideEscape held) ok
    rw [Text.trimEndVisible visible]
    intro same
    have longer := congrArg List.length same
    simp at longer
  obtain ⟨piece, scanned, rfl⟩ := (scanMarkExact "" 0).mp found
  intro same
  cases scanned with
  | atBlock name ok =>
    rw [again] at name
    subst name
    cases (Kind.atRule.inj (Option.some.inj same)).2.2
  | atEnded name ok =>
    rw [again] at name
    subst name
    exact beyond ok (String.ofList_inj.mp (Kind.atRule.inj (Option.some.inj same)).2.1)
  | atOpen name ok stop =>
    rw [again] at name
    subst name
    exact beyond ok (String.ofList_inj.mp (Kind.atRule.inj (Option.some.inj same)).2.1)
  | _ => cases same

end SheetLint
