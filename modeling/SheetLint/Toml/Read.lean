import SheetLint.Toml.Scalar

/-!
Reading TOML documents. The tables of a document are built statement by statement; a statement that
defines something twice, or extends what may not be extended, makes the document unreadable.
-/
namespace SheetLint.Toml

def setField (key : String) (value : Toml) : List (String × Toml) → List (String × Toml)
  | [] => [(key, value)]
  | (k, v) :: rest => if k == key then (key, value) :: rest else (k, v) :: setField key value rest

/-- Changes the table that a path leads to. Missing tables on the way are created as `created`; those
that a header has opened are closed to dotted keys, inline tables to all. Of an array of tables the last
one is meant. -/
def updateAt (created : TableOrigin) (change : Toml → Option Toml) :
    List String → Toml → Option Toml
  | [], .table origin fields => change (.table origin fields)
  | key :: rest, .table origin fields =>
    let put (value : Toml) := Toml.table origin (setField key value fields)
    match fields.lookup key with
    | none => (updateAt created change rest (.table created [])).map put
    | some (.table inner own) =>
      if inner == .inline || (created == .dotted && inner == .header) then none
      else (updateAt created change rest (.table inner own)).map put
    | some (.tables items) =>
      match items.getLast? with
      | some last =>
        (updateAt created change rest last).map fun next => put (.tables (items.dropLast ++ [next]))
      | none => none
    | some _ => none
  | _, _ => none

def addField (key : String) (value : Toml) : Toml → Option Toml
  | .table origin fields =>
    if (fields.lookup key).isSome then none else some (.table origin (setField key value fields))
  | _ => none

def addDotted (path : List String) (key : String) (value table : Toml) : Option Toml :=
  updateAt .dotted (fun target =>
    match target with
    | .table origin _ =>
      if (origin == .dotted) == path.isEmpty then none else addField key value target
    | _ => none) path table

def splitKey? (path : List String) : Option (List String × String) :=
  path.getLast?.map fun key => (path.dropLast, key)

def maxDepth : Nat := 79

def closed : Toml → Toml
  | .table _ fields => .table .inline fields
  | value => value

mutual

def readValue : Nat → Nat → List Char → Option (Toml × List Char)
  | 0, _, _ => none
  | fuel + 1, depth, cs =>
    match cs with
    | '"' :: _ => (readString cs).map fun p => (.string p.1, p.2)
    | '\'' :: _ => (readString cs).map fun p => (.string p.1, p.2)
    | '[' :: rest =>
      if depth = 0 then none
      else (readItems fuel (depth - 1) rest).map fun p => (.array p.1, p.2)
    | '\x7b' :: rest =>
      if depth = 0 then none
      else
        match skipBlanks rest with
        | '\x7d' :: after => some (.table .inline [], after)
        | inner => (readFields fuel (depth - 1) (.table .header []) inner).map fun p => (closed p.1, p.2)
    | _ => readScalar cs

def readItems : Nat → Nat → List Char → Option (List Toml × List Char)
  | 0, _, _ => none
  | fuel + 1, depth, cs =>
    match skipLines cs.length cs with
    | ']' :: after => some ([], after)
    | inner =>
      match readValue fuel depth inner with
      | none => none
      | some (item, rest) =>
        match skipLines rest.length rest with
        | ']' :: after => some ([item], after)
        | ',' :: after => (readItems fuel depth after).map fun p => (item :: p.1, p.2)
        | _ => none

def readFields : Nat → Nat → Toml → List Char → Option (Toml × List Char)
  | 0, _, _, _ => none
  | fuel + 1, depth, built, cs =>
    match readKey maxDepth cs with
    | none => none
    | some (path, rest) =>
      match rest with
      | '=' :: start =>
        match readValue fuel depth (skipBlanks start) with
        | none => none
        | some (value, after) =>
          match (splitKey? path).bind fun (before, key) => addDotted before key value built with
          | none => none
          | some next =>
            match skipBlanks after with
            | '\x7d' :: beyond => some (next, beyond)
            | ',' :: beyond => readFields fuel depth next beyond
            | _ => none
      | _ => none

end

structure Document where
  root : Toml := .table .header []
  current : List String := []
  deriving Repr

def Document.open? (doc : Document) (path : List String) : Option Document := do
  let (above, key) ← splitKey? path
  let root ← updateAt .implicit (fun target =>
    match target with
    | .table origin fields =>
      match fields.lookup key with
      | none => some (.table origin (setField key (.table .header []) fields))
      | some (.table .implicit own) =>
        some (.table origin (setField key (.table .header own) fields))
      | some _ => none
    | _ => none) above doc.root
  return ⟨root, path⟩

def Document.openNext? (doc : Document) (path : List String) : Option Document := do
  let (above, key) ← splitKey? path
  let root ← updateAt .implicit (fun target =>
    match target with
    | .table origin fields =>
      match fields.lookup key with
      | none => some (.table origin (setField key (.tables [.table .header []]) fields))
      | some (.tables items) =>
        some (.table origin (setField key (.tables (items ++ [.table .header []])) fields))
      | some _ => none
    | _ => none) above doc.root
  return ⟨root, path⟩

def Document.add? (doc : Document) (path : List String) (value : Toml) : Option Document := do
  let (before, key) ← splitKey? path
  let root ← updateAt .implicit (addDotted before key value) doc.current doc.root
  return { doc with root }

def readStatement (doc : Document) (cs : List Char) : Option (Document × List Char) :=
  match cs with
  | '[' :: '[' :: rest => do
    let (path, after) ← readKey maxDepth rest
    match after with
    | ']' :: ']' :: beyond => return (← doc.openNext? path, beyond)
    | _ => none
  | '[' :: rest => do
    let (path, after) ← readKey maxDepth rest
    match after with
    | ']' :: beyond => return (← doc.open? path, beyond)
    | _ => none
  | _ => do
    let (path, after) ← readKey maxDepth cs
    match after with
    | '=' :: start =>
      let (value, beyond) ← readValue (2 * start.length + 2) maxDepth (skipBlanks start)
      return (← doc.add? path value, beyond)
    | _ => none

def readStatements : Nat → Document → List Char → Option Document
  | 0, _, _ => none
  | fuel + 1, doc, cs =>
    let start := skipBlanks cs
    let statement := match start with
      | [] => some (doc, [])
      | c :: _ =>
        if c == '#' || c == '\n' || c == '\r' then some (doc, start) else readStatement doc start
    match statement with
    | none => none
    | some (next, rest) =>
      match skipComment (skipBlanks rest) with
      | [] => some next
      | after =>
        match skipNewline? after with
        | some beyond => readStatements fuel next beyond
        | none => none

def read? (text : String) : Option Toml :=
  let cs := match text.toList with
    | c :: rest => if c.toNat = 0xfeff then rest else c :: rest
    | [] => []
  (readStatements (cs.length + 1) {} cs).map Document.root

end SheetLint.Toml
