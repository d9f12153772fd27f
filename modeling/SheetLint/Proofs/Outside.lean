import SheetLint.Proofs.ScanState

/-! Texts that end outside of strings, comments, interpolations and parentheses. Such a text can be
followed by what ends its statement, unless its last character takes the next one with it: a backslash
does, and a hash if a brace comes. -/
namespace SheetLint.Scan
open Text (isBlank)

namespace State

def outside (s : State) : Bool :=
  s.depth == 0 &&
    match s.spot with
    | .plain | .slash | .hash | .escape => true
    | _ => false

theorem outsideStop {s : State} {c : Char} (stop : s.stops c = true) :
    s.outside = true ∧ s.spot ≠ .escape := by
  obtain ⟨spot, depth⟩ := s
  cases spot <;> simp_all [stops, outside]

theorem outsideEnds {s : State} (out : s.outside = true) (free : s.spot ≠ .escape) {c : Char}
    (ends : c = ';' ∨ c = '\x7d') : s.stops c = true := by
  obtain ⟨spot, depth⟩ := s
  rcases ends with rfl | rfl <;> cases spot <;> simp_all [stops, outside, endsStatement]

theorem outsideEscape {s : State} {c : Char} (held : s.spot = .escape) : s.stops c = false := by
  obtain ⟨spot, depth⟩ := s
  subst held
  exact Bool.and_false _

/-! ## Strings begin with a quote -/

def quotes (s : State) : Prop :=
  match s.spot with
  | .quoted quote | .escaped quote => quote = '"' ∨ quote = '\''
  | _ => True

theorem startQuotes (depth : Nat) : (start depth).quotes := trivial

theorem enterQuotes (depth : Nat) (c : Char) : (enter depth c).quotes := by
  unfold enter
  split
  · trivial
  · split
    · trivial
    · split
      · trivial
      · split
        · next quote => exact quote
        · trivial

theorem stepQuotes {s : State} (proper : s.quotes) (c : Char) : (s.step c).quotes := by
  obtain ⟨spot, depth⟩ := s
  cases spot with
  | plain => exact enterQuotes depth c
  | slash =>
    rw [step]
    dsimp only
    split
    · trivial
    · exact enterQuotes depth c
  | hash =>
    rw [step]
    dsimp only
    split
    · trivial
    · exact enterQuotes depth c
  | escape => trivial
  | quoted quote =>
    rw [step]
    dsimp only
    split
    · exact proper
    · split
      · trivial
      · exact proper
  | escaped quote => exact proper
  | comment =>
    rw [step]
    dsimp only
    split <;> trivial
  | star =>
    rw [step]
    dsimp only
    split
    · trivial
    · split <;> trivial
  | braces count =>
    rw [step]
    dsimp only
    split
    · trivial
    · split
      · split <;> trivial
      · trivial

theorem passesQuotes {s t : State} {text : List Char} (proper : s.quotes)
    (run : s.passes text = some t) : t.quotes := by
  induction text generalizing s with
  | nil =>
    cases run
    exact proper
  | cons c cs ih =>
    rw [passes] at run
    split at run
    · cases run
    · exact ih (stepQuotes proper c) run

/-! ## Characters without effect -/

def calm (s : State) : Bool :=
  match s.spot with
  | .plain | .quoted _ | .comment | .braces _ => true
  | _ => false

def inert (c : Char) : Bool := ordinary c && c != '*'

theorem blankInert {c : Char} (blank : isBlank c = true) : inert c = true := by
  have star : c ≠ '*' := by
    rintro rfl
    exact absurd blank (by decide)
  rw [inert, blankOrdinary blank]
  simpa using star

theorem ordinaryNe {c d : Char} (plain : ordinary c = true) (special : ordinary d = false) : c ≠ d := by
  rintro rfl
  cases plain.symm.trans special

theorem inertStep {s : State} {c : Char} (plain : inert c = true) (proper : s.quotes)
    (still : s.calm = true) : s.stops c = false ∧ s.step c = s := by
  obtain ⟨usual, star⟩ := Bool.and_eq_true_iff.mp plain
  obtain ⟨spot, depth⟩ := s
  cases spot with
  | plain => exact ⟨ordinaryGoes usual depth, enterOrdinary usual depth⟩
  | quoted quote =>
    have other : c ≠ quote := by
      rcases proper with rfl | rfl <;> exact ordinaryNe usual (by decide)
    refine ⟨Bool.and_false _, ?_⟩
    rw [step]
    dsimp only
    rw [if_neg (ordinaryNe usual (by decide)), if_neg other]
  | comment =>
    refine ⟨Bool.and_false _, ?_⟩
    rw [step]
    dsimp only
    rw [if_neg (bne_iff_ne.mp star)]
  | braces count =>
    refine ⟨Bool.and_false _, ?_⟩
    rw [step]
    dsimp only
    rw [if_neg (ordinaryNe usual (by decide)), if_neg (ordinaryNe usual (by decide))]
  | _ => cases still

theorem inertPasses {s : State} {text : List Char} (plain : ∀ c ∈ text, inert c = true)
    (proper : s.quotes) (still : s.calm = true) (more : List Char) :
    s.passes (text ++ more) = s.passes more := by
  induction text with
  | nil => rfl
  | cons c cs ih =>
    obtain ⟨first, others⟩ := List.forall_mem_cons.mp plain
    obtain ⟨goes, same⟩ := inertStep first proper still
    rw [List.cons_append, passesCons goes, same, ih others]

theorem outsideBlank {s : State} {c : Char} (blank : isBlank c = true) (out : s.outside = true) :
    s.stops c = false ∧ s.step c = start 0 := by
  have plain := blankOrdinary blank
  have star : c ≠ '*' := bne_iff_ne.mp (Bool.and_eq_true_iff.mp (blankInert blank)).2
  have brace : c ≠ '\x7b' := ordinaryNe plain (by decide)
  obtain ⟨spot, depth⟩ := s
  obtain ⟨level, -⟩ := Bool.and_eq_true_iff.mp out
  obtain rfl : depth = 0 := beq_iff_eq.mp level
  have goes := ordinaryGoes plain 0
  have entered := enterOrdinary plain 0
  cases spot with
  | plain => exact ⟨goes, entered⟩
  | slash =>
    refine ⟨goes, ?_⟩
    rw [step]
    dsimp only
    rw [if_neg star, entered]
    rfl
  | hash =>
    refine ⟨(hashStops brace).trans goes, ?_⟩
    rw [step]
    dsimp only
    rw [if_neg brace, entered]
    rfl
  | escape => exact ⟨rfl, rfl⟩
  | _ => simp [outside] at out

theorem outsideBlanks {s : State} {blanks : List Char} (blank : ∀ c ∈ blanks, isBlank c = true)
    (present : blanks ≠ []) (out : s.outside = true) : s.passes blanks = some (start 0) := by
  obtain ⟨c, cs, rfl⟩ := List.exists_cons_of_ne_nil present
  obtain ⟨first, others⟩ := List.forall_mem_cons.mp blank
  obtain ⟨goes, same⟩ := outsideBlank first out
  rw [passesCons goes, same]
  exact passesOrdinary 0 fun c inside => blankOrdinary (others c inside)

theorem insideInert {s : State} {c : Char} (plain : inert c = true) (proper : s.quotes)
    (out : (s.step c).outside = true) : s.outside = true := by
  obtain ⟨usual, star⟩ := Bool.and_eq_true_iff.mp plain
  by_cases still : s.calm = true
  · rwa [(inertStep plain proper still).2] at out
  · obtain ⟨spot, depth⟩ := s
    rw [step] at out
    cases spot with
    | slash =>
      dsimp only at out
      rwa [if_neg (bne_iff_ne.mp star), enterOrdinary usual] at out
    | hash =>
      dsimp only at out
      rwa [if_neg (ordinaryNe usual (by decide)), enterOrdinary usual] at out
    | escape => exact out
    | escaped quote => simp [outside] at out
    | star =>
      dsimp only at out
      rw [if_neg (ordinaryNe usual (by decide)), if_neg (bne_iff_ne.mp star)] at out
      simp [outside] at out
    | _ => exact absurd rfl still

theorem insideInerts {s t : State} {text : List Char} (plain : ∀ c ∈ text, inert c = true)
    (proper : s.quotes) (run : s.passes text = some t) (out : t.outside = true) :
    s.outside = true := by
  induction text generalizing s with
  | nil =>
    cases run
    exact out
  | cons c cs ih =>
    obtain ⟨first, others⟩ := List.forall_mem_cons.mp plain
    rw [passes] at run
    split at run
    · cases run
    · exact insideInert first proper (ih others (stepQuotes proper c) run)

theorem frontOutside {depth : Nat} {s : State} {front behind : List Char}
    (plain : ∀ c ∈ behind, inert c = true) (run : (start depth).passes (front ++ behind) = some s)
    (out : s.outside = true) : ∃ t, (start depth).passes front = some t ∧ t.outside = true := by
  rw [passesAppend, Option.bind_eq_some_iff] at run
  obtain ⟨t, first, last⟩ := run
  exact ⟨t, first, insideInerts plain (passesQuotes (startQuotes depth) first) last out⟩

/-! ## The last character -/

def danglingStep (last : Option Char) (c : Char) : Option Char :=
  if last = some '\\' then none else if c = '\\' ∨ c = '#' then some c else none

def agrees (s : State) (last : Option Char) : Prop :=
  match s.spot with
  | .plain | .slash => last = none
  | .hash => last = some '#'
  | .escape => last = some '\\'
  | _ => True

theorem enterAgrees {last : Option Char} (free : last ≠ some '\\') (depth : Nat) (c : Char) :
    (enter depth c).agrees (danglingStep last c) := by
  rw [danglingStep, if_neg free]
  unfold enter
  split
  · next same => subst same; rfl
  · split
    · next same => subst same; rfl
    · next hash =>
      split
      · next same => subst same; rfl
      · next escape =>
        split
        · trivial
        · exact if_neg (not_or.mpr ⟨escape, hash⟩)

theorem plainAgrees {c : Char} (last : Option Char) (escape : c ≠ '\\') (hash : c ≠ '#') :
    danglingStep last c = none := by
  rw [danglingStep, if_neg (not_or.mpr ⟨escape, hash⟩), ite_self]

theorem stepAgrees {s : State} {last : Option Char} (proper : s.quotes) (same : s.agrees last)
    (c : Char) : (s.step c).agrees (danglingStep last c) := by
  obtain ⟨spot, depth⟩ := s
  rw [step]
  cases spot with
  | plain => exact enterAgrees (by rw [show last = none from same]; simp) depth c
  | slash =>
    dsimp only
    split
    · trivial
    · exact enterAgrees (by rw [show last = none from same]; simp) depth c
  | hash =>
    dsimp only
    split
    · trivial
    · exact enterAgrees (by rw [show last = some '#' from same]; decide) depth c
  | escape => exact if_pos same
  | quoted quote =>
    dsimp only
    split
    · trivial
    · split
      · next closing =>
        subst closing
        rcases proper with rfl | rfl <;> exact plainAgrees last (by decide) (by decide)
      · trivial
  | escaped quote => trivial
  | comment =>
    dsimp only
    split <;> trivial
  | star =>
    dsimp only
    split
    · next closing =>
      subst closing
      exact plainAgrees last (by decide) (by decide)
    · split <;> trivial
  | braces count =>
    dsimp only
    split
    · trivial
    · split
      · next closing =>
        subst closing
        split
        · exact plainAgrees last (by decide) (by decide)
        · trivial
      · trivial

theorem passesAgrees {s t : State} {last : Option Char} {text : List Char} (proper : s.quotes)
    (same : s.agrees last) (run : s.passes text = some t) :
    t.agrees (text.foldl danglingStep last) := by
  induction text generalizing s last with
  | nil =>
    cases run
    exact same
  | cons c cs ih =>
    rw [passes] at run
    split at run
    · cases run
    · exact ih (stepQuotes proper c) (stepAgrees proper same c) run

end State

/- The backslash or the hash that a text ends in, if no backslash takes it. -/
def dangling (text : List Char) : Option Char := text.foldl State.danglingStep none

theorem danglingLast {text : List Char} {c : Char} (held : dangling text = some c) :
    text.getLast? = some c := by
  rcases List.eq_nil_or_concat text with rfl | ⟨front, last, rfl⟩
  · cases held
  · rw [List.concat_eq_append] at held ⊢
    rw [dangling, List.foldl_append, List.foldl_cons, List.foldl_nil, State.danglingStep] at held
    split at held
    · cases held
    · split at held
      · rw [List.getLast?_concat, held]
      · cases held

theorem danglingExact {depth : Nat} {s : State} {text : List Char}
    (run : (State.start depth).passes text = some s) (out : s.outside = true) :
    (dangling text = some '\\' ↔ s.spot = .escape) ∧ (dangling text = none ↔ s.stops '\x7b' = true) := by
  have fresh : (State.start depth).agrees none := rfl
  have same : s.agrees (dangling text) := State.passesAgrees (State.startQuotes depth) fresh run
  obtain ⟨spot, level⟩ := s
  cases spot <;> simp_all [State.agrees, State.outside, State.stops, endsStatement]

end SheetLint.Scan
