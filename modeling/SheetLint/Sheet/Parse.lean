import SheetLint.Sheet.Basic
import SheetLint.Sheet.Piece

/-!
Nesting the pieces of a text into a sheet. Heads wait on a stack until their closing brace comes; the
nodes are numbered in the order in which they begin.
-/
namespace SheetLint

structure Frame where
  node : Node
  start : Nat
  brace : Nat
  before : List (Node × Forest Node)
  deriving DecidableEq, Repr

def Frame.close (frame : Frame) (index : LineIndex) (after : String) (stop : Nat) : Node :=
  let data := frame.node.data
  { frame.node with
    data := { data with
      raws := { data.raws with after }
      span := some (index.span frame.start stop) } }

/-- `done` holds the finished trees of the innermost open block, last first. -/
def nest (index : LineIndex) (ending : Ending) :
    List Piece → List Frame → List (Node × Forest Node) → NodeId → Except Fault Sheet
  | [], frames, done, fresh =>
    match ending, frames with
    | .failed fault, _ => .error fault
    | .finished _, frame :: _ => .error ⟨.unclosedBlock, frame.brace⟩
    | .finished after, [] =>
      .ok { root := ⟨.root, { after }, none⟩, body := .ofTrees done.reverse, fresh }
  | .leaf data start stop :: rest, frames, done, fresh =>
    let node : Node := ⟨fresh, { data with span := some (index.span start stop) }⟩
    nest index ending rest frames ((node, .nil) :: done) (fresh + 1)
  | .head data start brace :: rest, frames, done, fresh =>
    nest index ending rest (⟨⟨fresh, data⟩, start, brace, done⟩ :: frames) [] (fresh + 1)
  | .close _ brace :: _, [], _, _ => .error ⟨.unexpectedClose, brace⟩
  | .close after brace :: rest, frame :: frames, done, fresh =>
    let tree := (frame.close index after (brace + 1), Forest.ofTrees done.reverse)
    nest index ending rest frames (tree :: frame.before) fresh

def Sheet.parse (source : String) : Except ParseError Sheet :=
  let text := source.toList
  let index := LineIndex.ofText text
  let (cut, ending) := pieces 0 text
  (nest index ending cut [] [] 1).mapError fun fault => fault.toError index

end SheetLint
