import SheetLint.Sheet.Prelude

/-! The scan of a statement one character at a time. A state says what the scanner is inside of, and how
many parentheses are open; a character moves it on or ends the statement. A prelude is what the
states pass over before the first character that ends it, so one can be cut, joined and changed in the
middle by looking at states only. -/
namespace SheetLint.Scan

inductive Spot where
  | plain
  | slash
  | hash
  | escape
  | quoted (quote : Char)
  | escaped (quote : Char)
  | comment
  | star
  | braces (count : Nat)
  deriving DecidableEq, Repr

structure State where
  spot : Spot
  depth : Nat
  deriving DecidableEq, Repr

namespace State

def start (depth : Nat) : State := ⟨.plain, depth⟩

def enter (depth : Nat) (c : Char) : State :=
  if c = '/' then ⟨.slash, depth⟩
  else if c = '#' then ⟨.hash, depth⟩
  else if c = '\\' then ⟨.escape, depth⟩
  else if c = '"' ∨ c = '\'' then ⟨.quoted c, depth⟩
  else ⟨.plain, depthAfter depth c⟩

def step (s : State) (c : Char) : State :=
  match s.spot with
  | .plain => enter s.depth c
  | .slash => if c = '*' then ⟨.comment, s.depth⟩ else enter s.depth c
  | .hash => if c = '\x7b' then ⟨.braces 1, s.depth⟩ else enter s.depth c
  | .escape => ⟨.plain, s.depth⟩
  | .quoted quote =>
    if c = '\\' then ⟨.escaped quote, s.depth⟩ else if c = quote then ⟨.plain, s.depth⟩ else s
  | .escaped quote => ⟨.quoted quote, s.depth⟩
  | .comment => if c = '*' then ⟨.star, s.depth⟩ else s
  | .star => if c = '/' then ⟨.plain, s.depth⟩ else if c = '*' then s else ⟨.comment, s.depth⟩
  | .braces count =>
    if c = '\x7b' then ⟨.braces (count + 1), s.depth⟩
    else if c = '\x7d' then if count ≤ 1 then ⟨.plain, s.depth⟩ else ⟨.braces (count - 1), s.depth⟩
    else s

/- Whether a character ends the statement. Behind a `#` a brace begins an interpolation. -/
def stops (s : State) (c : Char) : Bool :=
  s.depth == 0 &&
    match s.spot with
    | .plain | .slash => endsStatement c
    | .hash => c == ';' || c == '\x7d'
    | _ => false

def hidden (s : State) : Bool :=
  match s.spot with
  | .quoted _ | .escaped _ | .comment | .star => true
  | _ => false

def endsAt (s : State) : List Char → Bool
  | [] => !s.hidden
  | c :: _ => s.stops c

def passes (s : State) : List Char → Option State
  | [] => some s
  | c :: cs => if s.stops c then none else passes (s.step c) cs

theorem passesAppend (s : State) (text more : List Char) :
    s.passes (text ++ more) = (s.passes text).bind (·.passes more) := by
  induction text generalizing s with
  | nil => rfl
  | cons c cs ih =>
    rw [List.cons_append, passes, passes]
    split
    · rfl
    · exact ih _

theorem passesCons {s : State} {c : Char} (goes : s.stops c = false) (cs : List Char) :
    s.passes (c :: cs) = (s.step c).passes cs := by
  rw [passes, goes]
  rfl

theorem passesUnique {s t t' : State} {text rest text' rest' : List Char}
    (same : text ++ rest = text' ++ rest') (first : s.passes text = some t)
    (stop : t.endsAt rest = true) (second : s.passes text' = some t')
    (stop' : t'.endsAt rest' = true) : text = text' ∧ rest = rest' := by
  induction text generalizing s text' with
  | nil =>
    cases text' with
    | nil => exact ⟨rfl, same⟩
    | cons c cs =>
      rw [List.nil_append, List.cons_append] at same
      subst same
      obtain rfl := Option.some.inj first
      rw [passes, if_pos (show s.stops c = true from stop)] at second
      cases second
  | cons c cs ih =>
    cases text' with
    | nil =>
      rw [List.nil_append, List.cons_append] at same
      subst same
      obtain rfl := Option.some.inj second
      rw [passes, if_pos (show s.stops c = true from stop')] at first
      cases first
    | cons c' cs' =>
      rw [List.cons_append, List.cons_append, List.cons.injEq] at same
      obtain ⟨rfl, same⟩ := same
      rw [passes] at first second
      split at first
      · cases first
      · next goes =>
        rw [if_neg goes] at second
        obtain ⟨rfl, rfl⟩ := ih same first second
        exact ⟨rfl, rfl⟩

theorem passesWithin {s t u : State} {passed more text rest : List Char}
    (same : passed ++ more = text ++ rest) (front : s.passes passed = some t)
    (run : s.passes text = some u) (stop : u.endsAt rest = true) : ∃ others, text = passed ++ others := by
  induction passed generalizing s text with
  | nil => exact ⟨text, rfl⟩
  | cons c cs ih =>
    cases text with
    | nil =>
      rw [List.nil_append, List.cons_append] at same
      subst same
      obtain rfl := Option.some.inj run
      rw [passes, if_pos (show s.stops c = true from stop)] at front
      cases front
    | cons d ds =>
      rw [List.cons_append, List.cons_append, List.cons.injEq] at same
      obtain ⟨rfl, same⟩ := same
      rw [passes] at front run
      split at front
      · cases front
      · next goes =>
        rw [if_neg goes] at run
        obtain ⟨others, rfl⟩ := ih same front run
        exact ⟨others, rfl⟩

/-! ## Ordinary characters -/

def ordinary (c : Char) : Bool :=
  !(c == '/' || c == '#' || c == '\\' || c == '"' || c == '\'' || c == '(' || c == ')' ||
    endsStatement c)

theorem blankOrdinary {c : Char} (blank : Text.isBlank c = true) : ordinary c = true := by
  rw [ordinary, endsStatement, Bool.not_eq_true', Bool.eq_false_iff]
  intro special
  simp only [Bool.or_eq_true, beq_iff_eq] at special
  have blank' := blank
  rcases special with ((((((rfl | rfl) | rfl) | rfl) | rfl) | rfl) | rfl) | ((rfl | rfl) | rfl) <;>
    exact absurd blank (by decide)

theorem enterOrdinary {c : Char} (plain : ordinary c = true) (depth : Nat) :
    enter depth c = ⟨.plain, depth⟩ := by
  simp only [ordinary, Bool.not_eq_true', Bool.or_eq_false_iff, beq_eq_false_iff_ne] at plain
  obtain ⟨⟨⟨⟨⟨⟨⟨slash, hash⟩, escape⟩, double⟩, single⟩, opening⟩, closing⟩, -⟩ := plain
  have quote : ¬(c = '"' ∨ c = '\'') := by
    rintro (rfl | rfl)
    · exact double rfl
    · exact single rfl
  rw [enter, if_neg slash, if_neg hash, if_neg escape, if_neg quote, depthAfter]
  simp [opening, closing]

theorem ordinaryGoes {c : Char} (plain : ordinary c = true) (depth : Nat) :
    stops ⟨.plain, depth⟩ c = false := by
  simp only [ordinary, Bool.not_eq_true', Bool.or_eq_false_iff] at plain
  rw [stops, plain.2, Bool.and_false]

theorem passesOrdinary {text : List Char} (depth : Nat) (plain : ∀ c ∈ text, ordinary c = true) :
    passes (start depth) text = some (start depth) := by
  induction text with
  | nil => rfl
  | cons c cs ih =>
    obtain ⟨first, others⟩ := List.forall_mem_cons.mp plain
    rw [start, passesCons (ordinaryGoes first depth), step, enterOrdinary first]
    exact ih others

/-! ## Strings, comments and interpolations -/

theorem passesEscaped {quote : Char} (depth : Nat) (c : Char) (cs : List Char) :
    passes ⟨.quoted quote, depth⟩ ('\\' :: c :: cs) = passes ⟨.quoted quote, depth⟩ cs := by
  rw [passesCons (by simp [stops])]
  simp only [step, if_true]
  rw [passesCons (by simp [stops])]
  rfl

theorem passesQuote {quote : Char} {cs inner after : List Char} (depth : Nat)
    (mark : quote ≠ '\\') (closed : closeQuote quote cs = some (inner, after)) :
    passes ⟨.quoted quote, depth⟩ inner = some ⟨.plain, depth⟩ := by
  fun_induction closeQuote quote cs generalizing inner with
  | case1 => cases closed
  | case2 c cs ih =>
    obtain ⟨⟨inner', after'⟩, closed', same⟩ := Option.map_eq_some_iff.mp closed
    cases same
    rw [← ih closed']
    exact passesEscaped depth c _
  | case3 c cs _ same =>
    cases closed
    rw [beq_iff_eq] at same
    subst same
    simp [passes, stops, step, mark]
  | case4 c cs lone other ih =>
    obtain ⟨⟨inner', after'⟩, closed', same⟩ := Option.map_eq_some_iff.mp closed
    cases same
    rw [beq_iff_eq] at other
    have goes : step ⟨.quoted quote, depth⟩ c = ⟨.quoted quote, depth⟩ := by
      have escape : c ≠ '\\' := by
        rintro rfl
        cases cs with
        | nil => cases closed'
        | cons d ds => exact lone d ds rfl rfl
      simp [step, escape, other]
    rw [List.cons_append, List.nil_append, passesCons (by simp [stops]), goes]
    exact ih closed'

theorem passesQuoteOpen {quote : Char} {cs : List Char} (depth : Nat)
    (missing : closeQuote quote cs = none) :
    ∃ s, passes ⟨.quoted quote, depth⟩ cs = some s ∧ s.hidden = true := by
  fun_induction closeQuote quote cs with
  | case1 => exact ⟨_, rfl, rfl⟩
  | case2 c cs ih =>
    rw [passesEscaped]
    exact ih (Option.map_eq_none_iff.mp missing)
  | case3 c cs _ same => cases missing
  | case4 c cs lone other ih =>
    rw [beq_iff_eq] at other
    by_cases escape : c = '\\'
    · subst escape
      cases cs with
      | nil => exact ⟨⟨.escaped quote, depth⟩, by simp [passes, stops, step], rfl⟩
      | cons d ds => exact absurd rfl (lone d ds rfl)
    · have goes : step ⟨.quoted quote, depth⟩ c = ⟨.quoted quote, depth⟩ := by
        simp [step, escape, other]
      rw [passesCons (by simp [stops]), goes]
      exact ih (Option.map_eq_none_iff.mp missing)

theorem starAsComment {depth : Nat} {c : Char} (open' : c ≠ '/') (cs : List Char) :
    passes ⟨.star, depth⟩ (c :: cs) = passes ⟨.comment, depth⟩ (c :: cs) := by
  rw [passesCons (by simp [stops]), passesCons (by simp [stops])]
  simp [step, open']

theorem passesComment {cs body after : List Char} (depth : Nat)
    (closed : closeComment cs = some (body, after)) :
    passes ⟨.comment, depth⟩ (body ++ ['*', '/']) = some ⟨.plain, depth⟩ := by
  fun_induction closeComment cs generalizing body with
  | case1 => cases closed
  | case2 cs =>
    cases closed
    simp [passes, stops, step]
  | case3 c cs lone ih =>
    obtain ⟨⟨body', after'⟩, closed', same⟩ := Option.map_eq_some_iff.mp closed
    cases same
    have whole := closeCommentWhole closed'
    rw [List.append_assoc, List.cons_append, List.nil_append, passesCons (by simp [stops])]
    by_cases star : c = '*'
    · subst star
      rw [← ih closed']
      cases body' with
      | nil => exact starAsComment (by decide) _
      | cons d ds =>
        refine starAsComment ?_ _
        rintro rfl
        exact lone _ rfl whole
    · rw [show step ⟨.comment, depth⟩ c = ⟨.comment, depth⟩ by simp [step, star]]
      exact ih closed'

theorem passesCommentOpen {cs : List Char} (depth : Nat) (missing : closeComment cs = none) :
    ∃ s, passes ⟨.comment, depth⟩ cs = some s ∧ s.hidden = true := by
  fun_induction closeComment cs with
  | case1 => exact ⟨_, rfl, rfl⟩
  | case2 cs => cases missing
  | case3 c cs lone ih =>
    obtain ⟨s, run, inside⟩ := ih (Option.map_eq_none_iff.mp missing)
    rw [passesCons (by simp [stops])]
    by_cases star : c = '*'
    · subst star
      cases cs with
      | nil => exact ⟨⟨.star, depth⟩, rfl, rfl⟩
      | cons d ds =>
        refine ⟨s, ?_, inside⟩
        rw [← run]
        refine starAsComment ?_ _
        rintro rfl
        exact lone _ rfl rfl
    · rw [show step ⟨.comment, depth⟩ c = ⟨.comment, depth⟩ by simp [step, star]]
      exact ⟨s, run, inside⟩

theorem passesBraces {count : Nat} (depth : Nat) (cs : List Char) (inside : 0 < count) :
    ∃ s, passes ⟨.braces count, depth⟩ (closeBraces count cs).1 = some s ∧
      (s = ⟨.plain, depth⟩ ∨
        (closeBraces count cs).2 = [] ∧ ∃ left, s = ⟨.braces left, depth⟩) := by
  fun_induction closeBraces count cs with
  | case1 count => exact ⟨_, rfl, .inr ⟨rfl, count, rfl⟩⟩
  | case2 count c cs opens ih =>
    rw [beq_iff_eq] at opens
    subst opens
    have goes : step ⟨.braces count, depth⟩ '\x7b' = ⟨.braces (count + 1), depth⟩ := by simp [step]
    rw [passed, List.cons_append, List.nil_append, passesCons (by simp [stops]), goes]
    exact ih (Nat.succ_pos _)
  | case3 count c cs opens closes last =>
    rw [beq_iff_eq] at closes
    subst closes
    exact ⟨⟨.plain, depth⟩, by simp [passes, stops, step, last], .inl rfl⟩
  | case4 count c cs opens closes more ih =>
    rw [beq_iff_eq] at closes
    subst closes
    have goes : step ⟨.braces count, depth⟩ '\x7d' = ⟨.braces (count - 1), depth⟩ := by
      simp [step, more]
    rw [passed, List.cons_append, List.nil_append, passesCons (by simp [stops]), goes]
    exact ih (by omega)
  | case5 count c cs opens closes ih =>
    rw [beq_iff_eq] at opens closes
    have goes : step ⟨.braces count, depth⟩ c = ⟨.braces count, depth⟩ := by
      simp [step, opens, closes]
    rw [passed, List.cons_append, List.nil_append, passesCons (by simp [stops]), goes]
    exact ih inside

/-! ## Preludes -/

theorem openComment (depth : Nat) (cs : List Char) :
    passes ⟨.plain, depth⟩ ('/' :: '*' :: cs) = passes ⟨.comment, depth⟩ cs := by
  rw [passesCons (by simp [stops, endsStatement])]
  exact passesCons (by simp [stops, step, enter, endsStatement]) cs

theorem openBraces (depth : Nat) (cs : List Char) :
    passes ⟨.plain, depth⟩ ('#' :: '\x7b' :: cs) = passes ⟨.braces 1, depth⟩ cs := by
  rw [passesCons (by simp [stops, endsStatement])]
  exact passesCons (by simp [stops, step, enter]) cs

theorem openEscape (depth : Nat) (c : Char) (cs : List Char) :
    passes ⟨.plain, depth⟩ ('\\' :: c :: cs) = passes ⟨.plain, depth⟩ cs := by
  rw [passesCons (by simp [stops, endsStatement])]
  exact passesCons (by simp [stops, step, enter]) cs

theorem openQuote {quote : Char} (mark : quote = '"' ∨ quote = '\'') (depth : Nat) (cs : List Char) :
    passes ⟨.plain, depth⟩ (quote :: cs) = passes ⟨.quoted quote, depth⟩ cs := by
  rcases mark with rfl | rfl <;> exact passesCons (by simp [stops, endsStatement]) cs

theorem slashAsPlain {depth : Nat} {c : Char} (alone : c ≠ '*') (cs : List Char) :
    passes ⟨.slash, depth⟩ (c :: cs) = passes ⟨.plain, depth⟩ (c :: cs) := by
  rw [passes, passes]
  simp only [step, if_neg alone]
  rfl

theorem hashStops {depth : Nat} {c : Char} (alone : c ≠ '\x7b') :
    stops ⟨.hash, depth⟩ c = stops ⟨.plain, depth⟩ c := by
  have brace : (c == '\x7b') = false := beq_eq_false_iff_ne.mpr alone
  simp only [stops, endsStatement, brace, Bool.false_or]

theorem hashAsPlain {depth : Nat} {c : Char} (alone : c ≠ '\x7b') (cs : List Char) :
    passes ⟨.hash, depth⟩ (c :: cs) = passes ⟨.plain, depth⟩ (c :: cs) := by
  rw [passes, passes, hashStops alone]
  simp only [step, if_neg alone]

theorem passesNext {depth : Nat} {c d : Char} (noComment : c = '/' → d ≠ '*')
    (noBraces : c = '#' → d ≠ '\x7b') (noEscape : c ≠ '\\') (noQuote : ¬(c = '"' ∨ c = '\''))
    (goes : stops ⟨.plain, depth⟩ c = false) (ds : List Char) :
    passes ⟨.plain, depth⟩ (c :: d :: ds) = passes ⟨.plain, depthAfter depth c⟩ (d :: ds) := by
  rw [passesCons goes]
  simp only [step, enter]
  split
  · next slash =>
    subst slash
    exact slashAsPlain (noComment rfl) ds
  · split
    · next hash =>
      subst hash
      exact hashAsPlain (noBraces rfl) ds
    · rfl

theorem passesLast {depth : Nat} {c : Char} {rest : List Char}
    (noBraces : c = '#' → ∀ more, rest ≠ '\x7b' :: more) (noEscape : c = '\\' → rest = [])
    (noQuote : ¬(c = '"' ∨ c = '\'')) (goes : stops ⟨.plain, depth⟩ c = false)
    (stop : endsAt ⟨.plain, depthAfter depth c⟩ rest = true) :
    ∃ t, passes ⟨.plain, depth⟩ [c] = some t ∧ t.endsAt rest = true := by
  refine ⟨step ⟨.plain, depth⟩ c, passesCons goes [], ?_⟩
  simp only [step, enter]
  split
  · next slash =>
    subst slash
    cases rest with
    | nil => rfl
    | cons d ds => exact stop
  · split
    · next hash =>
      subst hash
      cases rest with
      | nil => rfl
      | cons d ds =>
        have alone : d ≠ '\x7b' := by
          rintro rfl
          exact noBraces rfl _ rfl
        rw [endsAt, hashStops alone]
        exact stop
    · split
      · next escape =>
        rw [noEscape escape]
        rfl
      · exact stop

theorem goesPlain {depth : Nat} {c : Char} (goes : ¬(depth == 0 && endsStatement c) = true) :
    stops ⟨.plain, depth⟩ c = false := Bool.not_eq_true _ ▸ goes

theorem preludeSound {offset depth : Nat} {cs text rest : List Char}
    (ok : prelude offset depth cs = .ok (text, rest)) :
    ∃ s, passes (start depth) text = some s ∧ s.endsAt rest = true := by
  unfold start
  fun_induction prelude offset depth cs generalizing text rest with
  | case1 => cases ok; exact ⟨_, rfl, rfl⟩
  | case2 => cases ok
  | case3 offset depth body inner after closed ih =>
    obtain ⟨⟨text', rest'⟩, ok', same⟩ := passedWhole ok
    cases same
    obtain ⟨s, run, stop⟩ := ih ok'
    refine ⟨s, ?_, stop⟩
    have opened : passes ⟨.plain, depth⟩ (comment inner) = some ⟨.plain, depth⟩ := by
      rw [comment, openComment]
      exact passesComment depth closed
    rw [passesAppend, opened]
    exact run
  | case4 offset depth body ih =>
    obtain ⟨⟨text', rest'⟩, ok', same⟩ := passedWhole ok
    cases same
    obtain ⟨s, run, stop⟩ := ih ok'
    obtain ⟨t, inner, ends⟩ := passesBraces depth body Nat.zero_lt_one
    have opened : passes ⟨.plain, depth⟩ (interpolation body) = some t := by
      rw [interpolation, openBraces]
      exact inner
    rw [passesAppend, opened]
    rcases ends with rfl | ⟨unclosed, left, rfl⟩
    · exact ⟨s, run, stop⟩
    · rw [unclosed] at ok'
      simp only [prelude, Except.ok.injEq, Prod.mk.injEq] at ok'
      obtain ⟨rfl, rfl⟩ := ok'
      exact ⟨_, rfl, rfl⟩
  | case5 offset depth c rest' ih =>
    obtain ⟨⟨text', rest''⟩, ok', same⟩ := passedWhole ok
    cases same
    obtain ⟨s, run, stop⟩ := ih ok'
    refine ⟨s, ?_, stop⟩
    rw [List.cons_append, List.cons_append, openEscape]
    exact run
  | case6 => cases ok
  | case7 offset depth c body noComment noBraces noEscape quote inner after closed ih =>
    obtain ⟨⟨text', rest'⟩, ok', same⟩ := passedWhole ok
    cases same
    obtain ⟨s, run, stop⟩ := ih ok'
    refine ⟨s, ?_, stop⟩
    rw [Bool.or_eq_true, beq_iff_eq, beq_iff_eq] at quote
    have mark : c ≠ '\\' := by rcases quote with rfl | rfl <;> decide
    have opened : passes ⟨.plain, depth⟩ (c :: inner) = some ⟨.plain, depth⟩ := by
      rw [openQuote quote]
      exact passesQuote depth mark closed
    rw [passesAppend, opened]
    exact run
  | case8 offset depth c rest' noComment noBraces noEscape noQuote ends =>
    cases ok
    rw [Bool.and_eq_true] at ends
    exact ⟨_, rfl, by simp [endsAt, stops, ends.1, ends.2]⟩
  | case9 offset depth c rest' noComment noBraces noEscape noQuote goes ih =>
    obtain ⟨⟨text', rest''⟩, ok', same⟩ := passedWhole ok
    cases same
    obtain ⟨s, run, stop⟩ := ih ok'
    have whole : rest' = text' ++ rest'' := (preludeWhole ok').1
    have ordinary := goesPlain goes
    rw [Bool.or_eq_true, beq_iff_eq, beq_iff_eq] at noQuote
    cases text' with
    | nil =>
      cases run
      refine passesLast ?_ ?_ noQuote ordinary stop
      · rintro rfl more rfl
        exact noBraces _ rfl whole
      · rintro rfl
        cases rest'' with
        | nil => rfl
        | cons d ds => exact absurd whole (noEscape d ds rfl)
    | cons d ds =>
      refine ⟨s, ?_, stop⟩
      rw [← run]
      refine passesNext ?_ ?_ ?_ noQuote ordinary ds
      · rintro rfl rfl
        exact noComment _ rfl whole
      · rintro rfl rfl
        exact noBraces _ rfl whole
      · rintro rfl
        exact noEscape _ _ rfl whole

theorem preludeFails {offset depth : Nat} {cs : List Char} {fault : Fault}
    (failed : prelude offset depth cs = .error fault) :
    ∃ s, passes (start depth) cs = some s ∧ s.hidden = true := by
  unfold start
  have inner : ∀ {chunk : List Char} {r : Except Fault (List Char × List Char)},
      r.map (passed chunk) = .error fault → r = .error fault := by
    intro chunk r failed
    cases r with
    | error other => cases failed; rfl
    | ok p => cases failed
  fun_induction prelude offset depth cs with
  | case1 => cases failed
  | case2 offset depth body missing =>
    rw [openComment]
    exact passesCommentOpen depth missing
  | case3 offset depth body text after closed ih =>
    obtain ⟨s, run, inside⟩ := ih (inner failed)
    refine ⟨s, ?_, inside⟩
    have whole : '/' :: '*' :: body = comment text ++ after := by
      simp [comment, closeCommentWhole closed]
    rw [whole, passesAppend, comment, openComment, passesComment depth closed]
    exact run
  | case4 offset depth body ih =>
    obtain ⟨s, run, inside⟩ := ih (inner failed)
    obtain ⟨t, braces, ends⟩ := passesBraces depth body Nat.zero_lt_one
    rw [openBraces, ← closeBracesWhole 1 body, passesAppend, braces]
    rcases ends with rfl | ⟨unclosed, left, rfl⟩
    · exact ⟨s, run, inside⟩
    · rw [unclosed] at failed
      simp [prelude, Except.map] at failed
  | case5 offset depth c rest ih =>
    rw [openEscape]
    exact ih (inner failed)
  | case6 offset depth c rest noComment noBraces noEscape quote missing =>
    rw [Bool.or_eq_true, beq_iff_eq, beq_iff_eq] at quote
    rw [openQuote quote]
    exact passesQuoteOpen depth missing
  | case7 offset depth c rest noComment noBraces noEscape quote text after closed ih =>
    obtain ⟨s, run, inside⟩ := ih (inner failed)
    refine ⟨s, ?_, inside⟩
    rw [Bool.or_eq_true, beq_iff_eq, beq_iff_eq] at quote
    have mark : c ≠ '\\' := by rcases quote with rfl | rfl <;> decide
    have whole : rest = text ++ after := closeQuoteWhole closed
    rw [openQuote quote, whole, passesAppend, passesQuote depth mark closed]
    exact run
  | case8 => cases failed
  | case9 offset depth c rest noComment noBraces noEscape noQuote goes ih =>
    obtain ⟨s, run, inside⟩ := ih (inner failed)
    have ordinary := goesPlain goes
    rw [Bool.or_eq_true, beq_iff_eq, beq_iff_eq] at noQuote
    cases rest with
    | nil =>
      cases run
      cases inside
    | cons d ds =>
      refine ⟨s, ?_, inside⟩
      rw [← run]
      refine passesNext ?_ ?_ ?_ noQuote ordinary ds
      · rintro rfl rfl
        exact noComment _ rfl rfl
      · rintro rfl rfl
        exact noBraces _ rfl rfl
      · rintro rfl
        exact noEscape _ _ rfl rfl

theorem preludeComplete {depth : Nat} {text rest : List Char} {s : State} (offset : Nat)
    (run : passes (start depth) text = some s) (stop : s.endsAt rest = true) :
    prelude offset depth (text ++ rest) = .ok (text, rest) := by
  cases result : prelude offset depth (text ++ rest) with
  | error fault =>
    obtain ⟨t, whole, inside⟩ := preludeFails result
    rw [passesAppend, run, Option.bind_some] at whole
    cases rest with
    | nil =>
      cases whole
      rw [endsAt, inside] at stop
      cases stop
    | cons c cs =>
      rw [passes, if_pos (show s.stops c = true from stop)] at whole
      cases whole
  | ok p =>
    obtain ⟨text', rest'⟩ := p
    obtain ⟨t, run', stop'⟩ := preludeSound result
    obtain ⟨rfl, rfl⟩ := passesUnique (preludeWhole result).1 run stop run' stop'
    rfl

theorem preludeExact {offset depth : Nat} {cs text rest : List Char} :
    prelude offset depth cs = .ok (text, rest) ↔
      cs = text ++ rest ∧ ∃ s, passes (start depth) text = some s ∧ s.endsAt rest = true := by
  constructor
  · intro ok
    exact ⟨(preludeWhole ok).1, preludeSound ok⟩
  · rintro ⟨rfl, s, run, stop⟩
    exact preludeComplete offset run stop

end State
end SheetLint.Scan
