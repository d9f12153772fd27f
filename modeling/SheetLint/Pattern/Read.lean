import SheetLint.Pattern.Basic
import SheetLint.Text.Basic
import SheetLint.Text.Digit

/-!
Reading patterns. A pattern is read from left to right with the flags that hold at each point; anything
outside the syntax makes the whole pattern unreadable.
-/
namespace SheetLint
namespace Pattern
open Text (splitFirst?)

structure Flags where
  ignoreCase : Bool := false
  dotAll : Bool := false
  multiLine : Bool := false
  verbose : Bool := false
  unicode : Bool := true
  deriving DecidableEq, Repr

def Flags.fold (flags : Flags) (c : CharClass) : CharClass :=
  if flags.ignoreCase then if flags.unicode then .folded c else .asciiFolded c else c

def Flags.set? (flags : Flags) (value : Bool) : Char → Option Flags
  | 'i' => some { flags with ignoreCase := value }
  | 's' => some { flags with dotAll := value }
  | 'm' => some { flags with multiLine := value }
  | 'x' => some { flags with verbose := value }
  | 'u' => some { flags with unicode := value }
  | 'U' => some flags
  | 'R' => some flags
  | _ => none

def skipVerbose (flags : Flags) (inComment : Bool) : List Char → List Char
  | [] => []
  | c :: cs =>
    if !flags.verbose then c :: cs
    else if inComment then skipVerbose flags (c != '\n') cs
    else if Text.isBlank c then skipVerbose flags false cs
    else if c == '#' then skipVerbose flags true cs
    else c :: cs

def charOfHex? (digits : List Char) : Option Char := do
  let code ← Text.hexValue? digits
  if digits.isEmpty || !Text.isCharCode code then none else some (Char.ofNat code)

def readHex (size : Nat) (cs : List Char) : Option (Char × List Char) :=
  match cs with
  | '\x7b' :: rest => do
    let (digits, after) ← splitFirst? '\x7d' rest
    return (← charOfHex? digits, after)
  | _ => if cs.length < size then none else (charOfHex? (cs.take size)).map fun c => (c, cs.drop size)

inductive Escape where
  | char (c : Char)
  | chars (c : CharClass)
  | assertion (a : Assertion)
  deriving Repr

def namedBoundary? (unicode : Bool) (name : String) : Option Assertion :=
  match name with
  | "start" => some (.wordStart unicode)
  | "end" => some (.wordEnd unicode)
  | "start-half" => some (.wordStartHalf unicode)
  | "end-half" => some (.wordEndHalf unicode)
  | _ => none

def readBoundary (unicode : Bool) (cs : List Char) : Option (Escape × List Char) :=
  match cs with
  | '\x7b' :: c :: rest =>
    if c.isAlpha || c == '-' then do
      let (name, after) ← splitFirst? '\x7d' (c :: rest)
      return (.assertion (← namedBoundary? unicode (.ofList name)), after)
    else some (.assertion (.boundary unicode), cs)
  | _ => some (.assertion (.boundary unicode), cs)

/-- A class or its complement. Without Unicode, a complement would hold parts of characters. -/
def complementIf (flags : Flags) (negated : Bool) (c : CharClass) : Option CharClass :=
  if negated then if flags.unicode then some (.not c) else none else some c

def readProperty (flags : Flags) (negated : Bool) (cs : List Char) :
    Option (Escape × List Char) := do
  if !flags.unicode then none
  else
    let (name, after) ← match cs with
      | '\x7b' :: rest => splitFirst? '\x7d' rest
      | c :: rest => some ([c], rest)
      | [] => none
    let (inverted, plain) := match name with
      | '^' :: rest => (true, rest)
      | rest => (false, rest)
    let chars := flags.fold (← CharClass.ofPropertyName? plain)
    return (.chars (if negated != inverted then .not chars else chars), after)

def digitClass (flags : Flags) : CharClass :=
  if flags.unicode then .property .decimalDigit else .asciiDigit

def blankClass (flags : Flags) : CharClass :=
  if flags.unicode then .property .blank else .asciiBlank

def wordClass (flags : Flags) : CharClass :=
  if flags.unicode then .property .word else .asciiWord

def readEscape (flags : Flags) (cs : List Char) : Option (Escape × List Char) :=
  match cs with
  | [] => none
  | c :: rest =>
    let literal (e : Char) := some (Escape.char e, rest)
    let chars (negated : Bool) (base : CharClass) :=
      (complementIf flags negated base).map fun k => (Escape.chars k, rest)
    match c with
    | 'x' => (readHex 2 rest).map fun p => (.char p.1, p.2)
    | 'u' => (readHex 4 rest).map fun p => (.char p.1, p.2)
    | 'U' => (readHex 8 rest).map fun p => (.char p.1, p.2)
    | 'p' => readProperty flags false rest
    | 'P' => readProperty flags true rest
    | 'd' => chars false (digitClass flags)
    | 'D' => chars true (digitClass flags)
    | 's' => chars false (blankClass flags)
    | 'S' => chars true (blankClass flags)
    | 'w' => chars false (wordClass flags)
    | 'W' => chars true (wordClass flags)
    | 'a' => literal '\x07'
    | 'f' => literal '\x0c'
    | 't' => literal '\t'
    | 'n' => literal '\n'
    | 'r' => literal '\r'
    | 'v' => literal '\x0b'
    | 'A' => some (.assertion .textStart, rest)
    | 'z' => some (.assertion .textEnd, rest)
    | 'b' => readBoundary flags.unicode rest
    | 'B' => some (.assertion (.notBoundary flags.unicode), rest)
    | '<' => some (.assertion (.wordStart flags.unicode), rest)
    | '>' => some (.assertion (.wordEnd flags.unicode), rest)
    | _ => if c.toNat < 0x80 && !c.isAlphanum then literal c else none

/-! ## Bracketed classes -/

def readClassItem (flags : Flags) (cs : List Char) : Option (Escape × List Char) :=
  match cs with
  | [] => none
  | '\\' :: rest => readEscape flags rest
  | c :: rest => some (.char c, rest)

def readClassRange (flags : Flags) (cs : List Char) : Option (CharClass × List Char) := do
  let (first, rest) ← readClassItem flags cs
  let single : Option CharClass := match first with
    | .char c => some (.char c)
    | .chars k => some k
    | .assertion _ => none
  match skipVerbose flags false rest with
  | [] => none
  | '-' :: after =>
    match skipVerbose flags false after with
    | [] => none
    | ']' :: _ => return (← single, '-' :: after)
    | '-' :: _ => return (← single, '-' :: after)
    | inner =>
      let (last, beyond) ← readClassItem flags inner
      match first, last with
      | .char low, .char high =>
        if low.toNat ≤ high.toNat then some (.range low.toNat high.toNat, beyond) else none
      | _, _ => none
  | more => return (← single, more)

def readAsciiClass (cs : List Char) : Option (CharClass × List Char) := do
  match cs with
  | '[' :: ':' :: rest =>
    let (negated, start) := match rest with
      | '^' :: after => (true, after)
      | after => (false, after)
    let (name, after) ← splitFirst? ':' start
    match after with
    | ']' :: beyond =>
      let c ← CharClass.ofAsciiName? (.ofList name)
      return (if negated then .not c else c, beyond)
    | _ => none
  | _ => none

inductive ClassOperator where
  | inter
  | diff
  | symmDiff
  deriving Repr

structure ClassState where
  pending : Option (CharClass × ClassOperator) := none
  items : CharClass := .empty
  deriving Repr

def ClassState.value (flags : Flags) (state : ClassState) : CharClass :=
  match state.pending with
  | none => state.items
  | some (left, op) =>
    let a := flags.fold left
    let b := flags.fold state.items
    match op with
    | .inter => .inter a b
    | .diff => .diff a b
    | .symmDiff => .symmDiff a b

def ClassState.push (state : ClassState) (c : CharClass) : ClassState :=
  { state with items := .union state.items c }

def ClassState.operator (flags : Flags) (state : ClassState) (op : ClassOperator) : ClassState :=
  { pending := some (state.value flags, op) }

def readClassStart (flags : Flags) (cs : List Char) : ClassState × List Char :=
  let hyphens := cs.takeWhile (· == '-')
  let rest := skipVerbose flags false (cs.dropWhile (· == '-'))
  let state : ClassState := if hyphens.isEmpty then {} else ClassState.push {} (.char '-')
  match rest with
  | ']' :: after => if hyphens.isEmpty then (state.push (.char ']'), after) else (state, rest)
  | _ => (state, rest)

mutual

def readClass : Nat → Flags → List Char → Option (CharClass × List Char)
  | 0, _, _ => none
  | fuel + 1, flags, cs =>
    let (negated, rest) := match skipVerbose flags false cs with
      | '^' :: after => (true, skipVerbose flags false after)
      | after => (false, after)
    let (state, inner) := readClassStart flags rest
    match readClassItems fuel flags state inner with
    | none => none
    | some (c, after) => (complementIf flags negated (flags.fold c)).map fun k => (k, after)

def readClassItems : Nat → Flags → ClassState → List Char → Option (CharClass × List Char)
  | 0, _, _, _ => none
  | fuel + 1, flags, state, cs =>
    match skipVerbose flags false cs with
    | [] => none
    | '[' :: rest =>
      match readAsciiClass ('[' :: rest) with
      | some (c, after) => readClassItems fuel flags (state.push c) after
      | none =>
        match readClass fuel flags rest with
        | none => none
        | some (c, after) => readClassItems fuel flags (state.push c) after
    | ']' :: rest => some (state.value flags, rest)
    | '&' :: '&' :: rest => readClassItems fuel flags (state.operator flags .inter) rest
    | '-' :: '-' :: rest => readClassItems fuel flags (state.operator flags .diff) rest
    | '~' :: '~' :: rest => readClassItems fuel flags (state.operator flags .symmDiff) rest
    | inner =>
      match readClassRange flags inner with
      | none => none
      | some (c, after) => readClassItems fuel flags (state.push c) after

end

/-! ## Repetition -/

def readCount (cs : List Char) : Option (Option Nat × List Char) :=
  let start := cs.dropWhile Text.isBlank
  let digits := start.takeWhile Char.isDigit
  let rest := (start.dropWhile Char.isDigit).dropWhile Text.isBlank
  let value := Text.decimalValue digits
  if digits.isEmpty then some (none, rest)
  else if value < UInt32.size then some (some value, rest)
  else none

def readBounds (cs : List Char) : Option (Nat × Option Nat × List Char) := do
  let (first, rest) ← readCount cs
  let least ← first
  match rest with
  | '\x7d' :: after => some (least, some least, after)
  | ',' :: more =>
    match more.dropWhile Text.isBlank with
    | '\x7d' :: after => some (least, none, after)
    | inner =>
      let (second, last) ← readCount inner
      let most ← second
      match last with
      | '\x7d' :: after => if least ≤ most then some (least, some most, after) else none
      | _ => none
  | _ => none

def skipLazy : List Char → List Char
  | '?' :: rest => rest
  | rest => rest

/-! ## Groups -/

def readFlags (flags : Flags) (value : Bool) (seen : List Char) :
    List Char → Option (Flags × Bool × List Char)
  | [] => none
  | ':' :: rest => if seen.head? == some '-' then none else some (flags, true, rest)
  | ')' :: rest =>
    if seen.isEmpty || seen.head? == some '-' then none else some (flags, false, rest)
  | '-' :: rest => if seen.contains '-' then none else readFlags flags false ('-' :: seen) rest
  | c :: rest =>
    if seen.contains c then none
    else (flags.set? value c).bind fun next => readFlags next value (c :: seen) rest

def isGroupNameChar (c : Char) : Bool :=
  c == '_' || c == '.' || c == '[' || c == ']' || c.isDigit || Text.isAlphabetic c

def readGroupName (cs : List Char) : Option (List Char × List Char) := do
  let (name, rest) ← splitFirst? '>' cs
  let first ← name.head?
  if (first == '_' || Text.isAlphabetic first) && name.all isGroupNameChar then some (name, rest)
  else none

inductive Part where
  | pattern (p : Pattern)
  | flags
  deriving Repr

def Part.toPattern : Part → Pattern
  | pattern p => p
  | flags => .empty

def joinParts (parts : List Part) : Pattern :=
  parts.foldl (fun after part =>
    match after with
    | .empty => part.toPattern
    | _ => .seq part.toPattern after) .empty

def maxNesting : Nat := 250

structure Scope where
  flags : Flags := {}
  names : List (List Char) := []
  deriving Repr

inductive GroupStart where
  | group (scope : Scope)
  | flags (scope : Scope)
  deriving Repr

def readGroupStart (scope : Scope) (cs : List Char) : Option (GroupStart × List Char) :=
  let named (rest : List Char) : Option (GroupStart × List Char) := do
    let (name, after) ← readGroupName rest
    if scope.names.contains name then none
    else return (.group { scope with names := name :: scope.names }, after)
  match cs with
  | '?' :: 'P' :: '<' :: rest => named rest
  | '?' :: '<' :: rest => named rest
  | '?' :: rest => do
    let (flags, isGroup, after) ← readFlags scope.flags true [] rest
    let inner := { scope with flags }
    return (if isGroup then .group inner else .flags inner, after)
  | rest => some (.group scope, rest)

mutual

def readAlternatives : Nat → Nat → Scope → List Char → Option (Pattern × Scope × List Char)
  | 0, _, _, _ => none
  | fuel + 1, depth, scope, cs =>
    match readParts fuel depth scope [] cs with
    | none => none
    | some (first, next, '|' :: rest) =>
      match readAlternatives fuel depth next rest with
      | none => none
      | some (others, last, after) => some (.alt first others, last, after)
    | some (first, next, rest) => some (first, next, rest)

def readParts :
    Nat → Nat → Scope → List Part → List Char → Option (Pattern × Scope × List Char)
  | 0, _, _, _, _ => none
  | fuel + 1, depth, scope, parts, cs =>
    let flags := scope.flags
    let push (p : Pattern) (rest : List Char) := readParts fuel depth scope (.pattern p :: parts) rest
    let again (least : Nat) (most : Option Nat) (rest : List Char) :=
      match parts with
      | .pattern p :: before =>
        readParts fuel depth scope (.pattern (.repeated p least most) :: before) (skipLazy rest)
      | _ => none
    match skipVerbose flags false cs with
    | [] => some (joinParts parts, scope, [])
    | '|' :: rest => some (joinParts parts, scope, '|' :: rest)
    | ')' :: rest => some (joinParts parts, scope, ')' :: rest)
    | '(' :: rest =>
      match readGroupStart scope rest with
      | none => none
      | some (.flags next, after) => readParts fuel depth next (.flags :: parts) after
      | some (.group inner, after) =>
        if depth = 0 then none
        else
          match readAlternatives fuel (depth - 1) inner after with
          | some (p, last, ')' :: beyond) =>
            readParts fuel depth { scope with names := last.names } (.pattern p :: parts) beyond
          | _ => none
    | '*' :: rest => again 0 none rest
    | '+' :: rest => again 1 none rest
    | '?' :: rest => again 0 (some 1) rest
    | '\x7b' :: rest =>
      match readBounds rest with
      | none => none
      | some (least, most, after) => again least most after
    | '[' :: rest =>
      match readClass fuel flags rest with
      | none => none
      | some (c, after) => push (.one c) after
    | '.' :: rest =>
      if !flags.unicode then none
      else push (.one (if flags.dotAll then .property .any else .not (.char '\n'))) rest
    | '^' :: rest => push (.assert (if flags.multiLine then .lineStart else .textStart)) rest
    | '$' :: rest => push (.assert (if flags.multiLine then .lineEnd else .textEnd)) rest
    | '\\' :: rest =>
      match readEscape flags rest with
      | none => none
      | some (.char c, after) => push (.one (flags.fold (.char c))) after
      | some (.chars c, after) => push (.one c) after
      | some (.assertion a, after) => push (.assert a) after
    | c :: rest => push (.one (flags.fold (.char c))) rest

end

def read? (text : String) : Option Pattern :=
  let cs := text.toList
  match readAlternatives (2 * cs.length + 2) maxNesting {} cs with
  | some (pattern, _, []) => some pattern
  | _ => none

end Pattern
end SheetLint
