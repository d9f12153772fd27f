import SheetLint.Value.Node

/-!
Edits of a text, given as replacements of byte ranges of the text as it was. They are kept in order and
apart from each other, and all are applied at once.
-/
namespace SheetLint

inductive EditError where
  | outOfBounds (range : ByteRange) (size : Nat)
  | notCharBoundary (range : ByteRange)
  | overlap (range : ByteRange)
  deriving DecidableEq, Repr

def EditError.message : EditError → String
  | .outOfBounds ⟨start, stop⟩ size =>
    s!"Range {start}..{stop} is outside of a value of length {size}"
  | .notCharBoundary ⟨start, stop⟩ => s!"Range {start}..{stop} does not fall on character boundaries"
  | .overlap ⟨start, stop⟩ => s!"Range {start}..{stop} overlaps an earlier edit"

structure Edit where
  range : ByteRange
  text : String
  deriving DecidableEq, Repr

/-- A text with the edits accepted so far, by ascending start. -/
structure EditBuffer where
  source : String
  edits : List Edit := []
  deriving DecidableEq, Repr

namespace EditBuffer

def size (buffer : EditBuffer) : Nat := Text.byteSize buffer.source.toList

def slice? (buffer : EditBuffer) (range : ByteRange) : Option String :=
  (Text.slice? buffer.source.toList range.start range.stop).map .ofList

def isBoundary (buffer : EditBuffer) (offset : Nat) : Bool :=
  (Text.splitAt? buffer.source.toList offset).isSome

def clashes (range : ByteRange) (earlier later : List Edit) : Bool :=
  (match earlier.getLast? with
    | some edit => range.start < edit.range.stop
    | none => false) ||
  (match later.head? with
    | some edit => edit.range.start < range.stop || edit.range.start == range.start
    | none => false)

def update (buffer : EditBuffer) (range : ByteRange) (text : String) : Except EditError EditBuffer :=
  if range.stop < range.start || buffer.size < range.stop then
    .error (.outOfBounds range buffer.size)
  else if !buffer.isBoundary range.start || !buffer.isBoundary range.stop then
    .error (.notCharBoundary range)
  else
    let earlier := buffer.edits.takeWhile fun edit => edit.range.start < range.start
    let later := buffer.edits.dropWhile fun edit => edit.range.start < range.start
    if clashes range earlier later then .error (.overlap range)
    else .ok { buffer with edits := earlier ++ ⟨range, text⟩ :: later }

def splice (cursor : Nat) (text : List Char) : List Edit → List Char
  | [] => text
  | edit :: rest =>
    let (kept, after) := (Text.splitAt? text (edit.range.start - cursor)).getD (text, [])
    let (_, beyond) := (Text.splitAt? after (edit.range.stop - edit.range.start)).getD (after, [])
    kept ++ edit.text.toList ++ splice edit.range.stop beyond rest

def finish (buffer : EditBuffer) : String :=
  .ofList (splice 0 buffer.source.toList buffer.edits)

end EditBuffer

def EditBuffer.replaceAll (replacer : String → String) (buffer : EditBuffer) :
    List ByteRange → Except EditError EditBuffer
  | [] => .ok buffer
  | range :: rest =>
    match buffer.slice? range with
    | none => .error (.notCharBoundary range)
    | some part =>
      match buffer.update range (replacer part) with
      | .error error => .error error
      | .ok next => next.replaceAll replacer rest

def replaceRanges (value : String) (ranges : List ByteRange) (replacer : String → String) :
    Except EditError String :=
  (EditBuffer.replaceAll replacer ⟨value, []⟩ ranges).map EditBuffer.finish

end SheetLint
