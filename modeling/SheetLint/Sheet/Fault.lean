import SheetLint.Position

/-!
What makes a text no style sheet, and where.
-/
namespace SheetLint

inductive ParseCause where
  | unclosedBlock
  | unexpectedClose
  | unclosedComment
  | unclosedString
  | missingColon
  deriving DecidableEq, Repr

structure Fault where
  cause : ParseCause
  offset : Nat
  deriving DecidableEq, Repr

structure ParseError where
  cause : ParseCause
  line : UInt32
  column : UInt32
  deriving DecidableEq, Repr

def Fault.toError (fault : Fault) (index : LineIndex) : ParseError :=
  let place := index.position fault.offset
  ⟨fault.cause, place.line, place.column⟩

def ParseError.message (error : ParseError) : String :=
  let place := s!"{error.line}:{error.column}"
  match error.cause with
  | .unclosedBlock => "Unclosed block at " ++ place
  | .unexpectedClose => "Unexpected \x7d at " ++ place
  | .unclosedComment => "Unclosed comment at " ++ place
  | .unclosedString => "Unclosed string at " ++ place
  | .missingColon => "Unknown word at " ++ place ++ ": expected a declaration"

end SheetLint
