import SheetLint.Pattern.Class

/-!
Patterns and where they match. Since only the existence of a match is asked for, a pattern maps each
place in a text to all places at which a match that starts there can end.
-/
namespace SheetLint

inductive Assertion where
  | textStart
  | textEnd
  | lineStart
  | lineEnd
  | boundary (unicode : Bool)
  | notBoundary (unicode : Bool)
  | wordStart (unicode : Bool)
  | wordEnd (unicode : Bool)
  | wordStartHalf (unicode : Bool)
  | wordEndHalf (unicode : Bool)
  deriving DecidableEq, Repr

inductive Pattern where
  | empty
  | one (chars : CharClass)
  | assert (assertion : Assertion)
  | seq (first second : Pattern)
  | alt (left right : Pattern)
  | repeated (body : Pattern) (least : Nat) (most : Option Nat)
  deriving DecidableEq, Repr

structure Cursor where
  before : Option Char
  rest : List Char
  deriving DecidableEq, Repr

def isAsciiWordChar (c : Char) : Bool := c.isAlphanum || c == '_'

def Assertion.holds (cursor : Cursor) : Assertion → Bool
  | textStart => cursor.before.isNone
  | textEnd => cursor.rest.isEmpty
  | lineStart => cursor.before.all (· == '\n')
  | lineEnd => cursor.rest.head?.all (· == '\n')
  | boundary unicode => left unicode != right unicode
  | notBoundary unicode => left unicode == right unicode
  | wordStart unicode => !left unicode && right unicode
  | wordEnd unicode => left unicode && !right unicode
  | wordStartHalf unicode => !left unicode
  | wordEndHalf unicode => !right unicode
where
  isWord (unicode : Bool) (c : Char) : Bool :=
    if unicode then Text.isWordChar c else isAsciiWordChar c
  left (unicode : Bool) : Bool := cursor.before.any (isWord unicode)
  right (unicode : Bool) : Bool := cursor.rest.head?.any (isWord unicode)

namespace Pattern

def advance (step : Cursor → List Cursor) (places : List Cursor) : List Cursor :=
  (places.flatMap step).eraseDups

def times (step : Cursor → List Cursor) : Nat → List Cursor → List Cursor
  | 0, places => places
  | _, [] => []
  | n + 1, places => times step n (advance step places)

def upTo (step : Cursor → List Cursor) : Nat → List Cursor → List Cursor
  | 0, places => places
  | _, [] => []
  | n + 1, places =>
    let next := (advance step places).filter fun place => !places.contains place
    (places ++ upTo step n next).eraseDups

def ends : Pattern → Cursor → List Cursor
  | empty, cursor => [cursor]
  | one chars, ⟨_, rest⟩ =>
    match rest with
    | [] => []
    | c :: after => if chars.has c then [⟨some c, after⟩] else []
  | assert assertion, cursor => if assertion.holds cursor then [cursor] else []
  | seq first second, cursor => advance (ends second) (ends first cursor)
  | alt left right, cursor => (ends left cursor ++ ends right cursor).eraseDups
  | repeated body least most, cursor =>
    let begun := times (ends body) least [cursor]
    let more := match most with
      | some most => most - least
      | none => cursor.rest.length
    upTo (ends body) more begun

def matchesFrom (pattern : Pattern) (before : Option Char) : List Char → Bool
  | [] => !(pattern.ends ⟨before, []⟩).isEmpty
  | c :: rest => !(pattern.ends ⟨before, c :: rest⟩).isEmpty || matchesFrom pattern (some c) rest

def isMatch (pattern : Pattern) (text : String) : Bool := pattern.matchesFrom none text.toList

end Pattern
end SheetLint
