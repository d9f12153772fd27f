import SheetLint.Text.Basic

/-!
Places in a text: line and column, both counted from one, beside the byte offset. A column counts
bytes, and only a line feed ends a line. Lines and columns are words of 32 bits, so that the last place
of a text of 2^32 - 1 bytes may be counted round to zero.
-/
namespace SheetLint

structure Position where
  line : UInt32
  column : UInt32
  offset : Nat
  deriving DecidableEq, Repr

structure Span where
  start : Position
  stop : Position
  deriving DecidableEq, Repr

structure LineIndex where
  starts : List Nat
  deriving DecidableEq, Repr

namespace LineIndex

def startsAfter (offset : Nat) : List Char → List Nat
  | [] => []
  | c :: cs =>
    let next := offset + c.utf8Size
    if c == '\n' then next :: startsAfter next cs else startsAfter next cs

def ofText (cs : List Char) : LineIndex := ⟨0 :: startsAfter 0 cs⟩

def position (index : LineIndex) (offset : Nat) : Position :=
  let begun := index.starts.takeWhile (· ≤ offset)
  ⟨.ofNat begun.length, .ofNat (offset - begun.getLastD 0 + 1), offset⟩

def span (index : LineIndex) (start stop : Nat) : Span :=
  ⟨index.position start, index.position stop⟩

end LineIndex
end SheetLint
