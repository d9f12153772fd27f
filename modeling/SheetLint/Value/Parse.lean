import SheetLint.Value.Lexeme
import SheetLint.Value.Node

/-!
Reading a value. Its lexemes become items, among them the openings and closings of calls, and the items
are nested with a stack of open calls. Reading never fails: a call that nothing closes runs to the end of
the value, and a closing parenthesis that closes no call is a word.
-/
namespace SheetLint
open Text (byteSize)

inductive ValueItem where
  | node (node : ValueNode)
  | opening (name : String) (start : Nat)
  | closing (range : ByteRange)
  deriving Repr

namespace Lexeme

def range (lexeme : Lexeme) : ByteRange := ⟨lexeme.start, lexeme.stop⟩

def stringFollows (lexemes : List Lexeme) : Bool :=
  match lexemes.dropWhile fun l => l.kind == .space with
  | ⟨.string _, _, _⟩ :: _ => true
  | _ => false

def unquote (text : List Char) (closed : Bool) : List Char :=
  if closed then text.tail.dropLast else text.tail

def uncomment (text : List Char) (closed : Bool) : List Char :=
  if closed then (text.drop 2).dropLast.dropLast else text.drop 2

def toItem (lexeme : Lexeme) : ValueItem :=
  match lexeme.kind with
  | .space => .node (.leaf .space (.ofList lexeme.text) lexeme.range)
  | .divider => .node (.leaf (.divider "" "") (.ofList lexeme.text) lexeme.range)
  | .opening => .opening "" lexeme.start
  | .closing => .closing lexeme.range
  | .string closed =>
    .node (.leaf (.string (lexeme.text.headD '"') closed) (.ofList (unquote lexeme.text closed))
      lexeme.range)
  | .comment closed =>
    .node (.leaf (.comment closed) (.ofList (uncomment lexeme.text closed)) lexeme.range)
  | .word => .node (.leaf .word (.ofList lexeme.text) lexeme.range)

end Lexeme

/-- An address call whose argument is not quoted: all up to the first closing parenthesis is one word.
`start` is where the name begins, `inside` where the text behind the opening parenthesis does. -/
def addressCall (name : String) (start inside : Nat) (text : List Char) : ValueNode :=
  let content := text.takeWhile (· != ')')
  let closed := content.length < text.length
  let written := Text.trimStart content
  let word := Text.trimEnd written
  let wordStart := inside + byteSize (Text.leading content)
  let args :=
    if word.isEmpty then []
    else [.leaf .word (.ofList word) ⟨wordStart, wordStart + byteSize word⟩]
  let stop := inside + byteSize content + (if closed then 1 else 0)
  .call name (.ofList (Text.leading content)) (.ofList (Text.trailing written)) args closed
    ⟨start, stop⟩

/-- The items of a list of lexemes, without those that begin before byte `skip`. An address call leaves
out every lexeme that begins inside it. -/
def valueItems (skip : Nat) : List Lexeme → List ValueItem
  | [] => []
  | lexeme :: rest =>
    if lexeme.start < skip then valueItems skip rest
    else
      match lexeme.kind, rest with
      | .word, ⟨.opening, paren, start⟩ :: after =>
        let name := String.ofList lexeme.text
        let inside := start + byteSize paren
        if Text.sameIgnoringCase lexeme.text "url".toList && !Lexeme.stringFollows after then
          let node := addressCall name lexeme.start inside (after.flatMap Lexeme.text)
          .node node :: valueItems node.range.stop rest
        else .opening name lexeme.start :: valueItems inside rest
      | _, _ => lexeme.toItem :: valueItems skip rest

namespace ValueNode

def absorbSpaces : List ValueNode → List ValueNode
  | [] => []
  | leaf .space before first :: leaf (.divider _ _) text _ :: leaf .space after last :: rest =>
    leaf (.divider before after) text ⟨first.start, last.stop⟩ :: absorbSpaces rest
  | leaf .space before first :: leaf (.divider _ own) text range :: rest =>
    leaf (.divider before own) text ⟨first.start, range.stop⟩ :: absorbSpaces rest
  | leaf (.divider own _) text range :: leaf .space after last :: rest =>
    leaf (.divider own after) text ⟨range.start, last.stop⟩ :: absorbSpaces rest
  | node :: rest => node :: absorbSpaces rest

def spaceBefore : List ValueNode → String × List ValueNode
  | leaf .space text _ :: rest => (text, rest)
  | nodes => ("", nodes)

def spaceAfter (nodes : List ValueNode) : String × List ValueNode :=
  match nodes.getLast? with
  | some (leaf .space text _) => (text, nodes.dropLast)
  | _ => ("", nodes)

end ValueNode

structure OpenCall where
  name : String
  start : Nat
  before : List ValueNode
  deriving Repr

def OpenCall.finish (call : OpenCall) (nodes : List ValueNode) (closed : Bool) (stop : Nat) :
    ValueNode :=
  let (before, rest) := ValueNode.spaceBefore (ValueNode.absorbSpaces nodes)
  let (after, args) := ValueNode.spaceAfter rest
  .call call.name before after args closed ⟨call.start, stop⟩

def closeAll (size : Nat) : List OpenCall → List ValueNode → List ValueNode
  | [], done => ValueNode.absorbSpaces done.reverse
  | call :: calls, done =>
    closeAll size calls (call.finish done.reverse false size :: call.before)

/-- `done` holds the nodes of the innermost open call, last first, and `size` is the end of the value. -/
def nestCalls (size : Nat) : List ValueItem → List OpenCall → List ValueNode → List ValueNode
  | [], calls, done => closeAll size calls done
  | .node node :: rest, calls, done => nestCalls size rest calls (node :: done)
  | .opening name start :: rest, calls, done => nestCalls size rest (⟨name, start, done⟩ :: calls) []
  | .closing range :: rest, [], done => nestCalls size rest [] (.leaf .word ")" range :: done)
  | .closing range :: rest, call :: calls, done =>
    nestCalls size rest calls (call.finish done.reverse true range.stop :: call.before)

def parseValue (value : String) : List ValueNode :=
  let text := value.toList
  nestCalls (byteSize text) (valueItems 0 (Lexeme.lex 0 text)) [] []

end SheetLint
