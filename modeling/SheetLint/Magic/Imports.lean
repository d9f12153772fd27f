import SheetLint.Config.Options
import SheetLint.Sheet.Basic

/-!
The modules that a sheet uses. Each `@use` at the root binds an alias to a module; missing ones are
added in front of the first other node.
-/
namespace SheetLint

/-! ## Directives -/

def quotedModule? : List Char → Option (List Char × List Char)
  | quote :: rest =>
    if quote == '\'' || quote == '"' then
      match Text.splitFirst? quote rest with
      | some (source, after) => if source.isEmpty then none else some (source, after)
      | none => none
    else none
  | [] => none

def givenAlias? (text : List Char) : Option (List Char) :=
  match Text.trimStart text with
  | 'a' :: 's' :: rest =>
    let name := Text.trim rest
    if name.isEmpty || name.any Text.isBlank then none else some name
  | _ => none

def stem (name : List Char) : List Char :=
  match Text.splitLast? '.' name with
  | some (base, _) => if base.isEmpty then name else base
  | none => name

/-- The alias of a module that is given none: the stem of its file name, without underscores in front.
Empty steps and steps to the same directory do not count; a step to the directory above has no stem. -/
def defaultAlias (source : List Char) : List Char :=
  let parts := (Text.splitOn '/' source).filter fun part => !part.isEmpty && part != ['.']
  match parts.getLast? with
  | none => []
  | some name => if name == ['.', '.'] then [] else (stem name).dropWhile (· == '_')

def parseUse? (params : String) : Option (String × String) := do
  let (source, rest) ← quotedModule? (Text.trimStart params.toList)
  let name ←
    if (Text.trimStart rest).isEmpty then some (defaultAlias source) else givenAlias? rest
  return (.ofList name, .ofList source)

/-! ## The table -/

/-- `uses` ascends by alias. New directives go in front of `anchor`, or at the end of the root. -/
structure ImportTable where
  uses : Uses := []
  anchor : Option NodeId := none
  deriving DecidableEq, Repr

namespace ImportTable

def isUse (node : Node) : Bool := node.data.isAtRuleNamed "use"

def bindings (nodes : List Node) : Uses :=
  sortKeys ((nodes.filter isUse).filterMap fun node => node.data.params?.bind parseUse?)

def anchorOf (nodes : List Node) : Option NodeId :=
  (nodes.find? fun node => !isUse node).map Node.id

def scan (sheet : Sheet) : ImportTable :=
  let nodes := sheet.body.roots
  ⟨bindings nodes, anchorOf nodes⟩

def get? (table : ImportTable) (name : String) : Option String := table.uses.lookup name

def missing (table : ImportTable) (required : Uses) : Uses :=
  required.filter fun entry => table.get? entry.1 != some entry.2

def directive (name source : String) : NodeData :=
  .atRule "use" ("'" ++ source ++ "' as " ++ name)

def hasNewline (text : String) : Bool := text.toList.contains '\n'

def ontoNewLine (node : NodeData) : NodeData :=
  if hasNewline node.raws.before then node
  else node.withBefore ("\n" ++ .ofList (Text.trimStart node.raws.before.toList))

/-- The sheet with a directive in front of the anchor. A new first node pushes the old one onto a line of
its own; any other stands on a line of its own. -/
def place (table : ImportTable) (sheet : Sheet) (node : NodeData) : Sheet :=
  match table.anchor.filter sheet.contains with
  | some anchor =>
    if sheet.index? anchor == some 0 then
      let moved := sheet.modify anchor ontoNewLine
      ((moved.insertBefore? anchor node).map (·.2)).getD moved
    else
      let before := ((sheet.get? anchor).map fun own => own.raws.before).filter hasNewline
      let own := node.withBefore (before.getD "\n")
      ((sheet.insertBefore? anchor own).map (·.2)).getD sheet
  | none =>
    let own := node.withBefore (if sheet.isEmpty then "" else "\n")
    ((sheet.append? Sheet.rootId own).map (·.2)).getD sheet

def insert (table : ImportTable) (sheet : Sheet) (name source : String) : ImportTable × Sheet :=
  ({ table with uses := insertKey name source table.uses },
    table.place sheet (directive name source))

def ensure (table : ImportTable) (sheet : Sheet) (required : Uses) : ImportTable × Sheet :=
  (table.missing required).foldl (fun state entry => state.1.insert state.2 entry.1 entry.2)
    (table, sheet)

end ImportTable
end SheetLint
