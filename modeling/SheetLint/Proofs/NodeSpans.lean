import SheetLint.Proofs.Places
import SheetLint.Proofs.SeparatedLayout

/-! Where the nodes of a sheet that was read stand. A piece is where its text is, so the span of a node covers
exactly what is printed for it behind its layout: the text between its ends, inside of the text of its
parent and behind those of the siblings before it. -/
namespace SheetLint
open Text (byteSize trimEnd trailing)

/-! ## Pieces -/

namespace Piece

def before : Piece → String
  | leaf data _ _ => data.raws.before
  | head data _ _ => data.raws.before
  | close before _ => before

def first : Piece → Nat
  | leaf _ start _ => start
  | head _ start _ => start
  | close _ brace => brace

structure At (piece : Piece) (front : List Char) : Prop where
  first : piece.first = byteSize (front ++ piece.before.toList)
  next : piece.next = byteSize (front ++ piece.text)

end Piece

def Located : List Char → List Piece → Prop
  | _, [] => True
  | front, piece :: rest => piece.At front ∧ Located (front ++ piece.text) rest

theorem locatedAppend {front : List Char} {ps qs : List Piece} (located : Located front (ps ++ qs)) :
    Located front ps ∧ Located (front ++ ps.flatMap Piece.text) qs := by
  induction ps generalizing front with
  | nil => exact ⟨trivial, by simpa using located⟩
  | cons p ps ih =>
    obtain ⟨own, others⟩ := located
    obtain ⟨inner, outer⟩ := ih others
    exact ⟨⟨own, inner⟩, by simpa using outer⟩

variable {before : String} {start : Nat} {cs rest : List Char} {piece : Piece}

theorem scannedFirst (scanned : Scanned before start cs piece rest) :
    piece.first = start ∧ piece.before = before := by
  cases scanned <;> exact ⟨rfl, rfl⟩

theorem namedSize {n : AtRuleName} (name : AtRuleName.ofText cs = n) (start : Nat) :
    n.paramsAt start + byteSize n.rest = start + byteSize ('@' :: cs) := by
  have sizes := congrArg byteSize (atRuleWhole cs)
  have wide : '@'.utf8Size = 1 := rfl
  subst name
  simp only [Text.byteSizeAppend] at sizes
  rw [AtRuleName.paramsAt, Text.byteSizeCons]
  omega

theorem preludeSize {offset depth : Nat} {text : List Char} (ok : Scan.prelude offset depth cs = .ok (text, rest)) :
    byteSize cs = byteSize text + byteSize rest := by
  rw [(Scan.preludeWhole ok).1, Text.byteSizeAppend]

theorem scannedNext (scanned : Scanned before start cs piece rest) :
    piece.next + byteSize rest = start + byteSize cs := by
  have ascii : '/'.utf8Size = 1 ∧ '*'.utf8Size = 1 ∧ '\x7b'.utf8Size = 1 ∧ '\x7d'.utf8Size = 1 ∧
    ';'.utf8Size = 1 := ⟨rfl, rfl, rfl, rfl, rfl⟩
  cases scanned with
  | close rest =>
    simp only [Piece.next, Text.byteSizeCons]
    omega
  | comment closed =>
    have sizes := congrArg byteSize (Scan.closeCommentWhole closed)
    simp only [Text.byteSizeAppend, Text.byteSizeCons] at sizes
    simp only [Piece.next, Piece.comment, Text.byteSizeCons]
    omega
  | line body =>
    have sizes := congrArg byteSize (List.takeWhile_append_dropWhile (p := (· != '\n')) (l := body))
    simp only [Text.byteSizeAppend] at sizes
    simp only [Piece.next, Piece.comment, Text.byteSizeCons]
    omega
  | atBlock name params =>
    have sizes := preludeSize params
    have named := namedSize name start
    rw [Text.byteSizeCons] at sizes
    simp only [Piece.next]
    omega
  | atEnded name params =>
    have sizes := preludeSize params
    have named := namedSize name start
    rw [Text.byteSizeCons] at sizes
    simp only [Piece.next]
    omega
  | @atOpen _ n text tail name params stop =>
    have sizes := preludeSize params
    have named := namedSize name start
    have trimmed := congrArg byteSize (Text.trimEndTrailing text)
    rw [Text.byteSizeAppend] at trimmed ⊢
    simp only [Piece.next]
    omega
  | rule plain head =>
    have sizes := preludeSize head
    rw [Text.byteSizeCons] at sizes
    simp only [Piece.next]
    omega
  | ended plain body parts =>
    have sizes := preludeSize body
    rw [Text.byteSizeCons] at sizes
    simp only [Piece.next]
    omega
  | opened plain body stop parts =>
    have sizes := preludeSize body
    have whole := congrArg byteSize (declarationWhole parts)
    rw [Text.byteSizeAppend] at whole ⊢
    simp only [Piece.next]
    omega

theorem cutLocated {offset : Nat} {ps : List Piece} {after : String} {front : List Char}
    (cut : Cut offset cs ps after) (here : offset = byteSize front) : Located front ps := by
  induction cut generalizing front with
  | nil blank => trivial
  | @cons offset layout c body piece rest ps after blank visible scanned tail ih =>
    obtain ⟨first, before⟩ := scannedFirst scanned
    have next := scannedNext scanned
    have sizes := congrArg byteSize (scannedText scanned)
    rw [String.toList_ofList, Text.byteSizeAppend, Text.byteSizeAppend] at sizes
    have behind : piece.next = byteSize (front ++ piece.text) := by
      rw [Text.byteSizeAppend]
      omega
    refine ⟨⟨?_, behind⟩, ih behind⟩
    rw [first, before, String.toList_ofList, Text.byteSizeAppend, here]

/-! ## Forests -/

namespace Forest

/- Every node has the span of what is printed for it, where `front` is printed in front of the forest. -/
def Placed : List Char → Forest Node → Prop
  | _, nil => True
  | front, cons node children next =>
    let start := front ++ node.data.raws.before.toList
    let text := (node.data.render next.isEmpty children.print).toList
    node.data.span = some (.covering start text) ∧
      children.Placed (start ++ (node.data.heading.toList ++ ['\x7b'])) ∧ next.Placed (start ++ text)

end Forest

theorem covered {whole start text : List Char} {first next : Nat} (begins : first = byteSize start)
    (ends : next = byteSize (start ++ text)) (inside : start ++ text <+: whole) :
    (LineIndex.ofText whole).span first next = .covering start text := by
  rw [begins, ends, LineIndex.spanCovering inside]

theorem renderLast {node : NodeData} {next : Forest Node} (last : node.isOpen = true → next = .nil)
    (inner : String) : node.render next.isEmpty inner = node.render true inner := by
  cases isOpen : node.isOpen with
  | false => exact renderClosed isOpen _ _
  | true =>
    rw [last isOpen]
    rfl

theorem renderBraces {node : NodeData} (block : node.kind.isBlock = true) (last : Bool) (inner : String) :
    (node.render last inner).toList =
      node.heading.toList ++ ['\x7b'] ++ inner.toList ++ (node.raws.after.toList ++ ['\x7d']) := by
  rw [renderBlock block]
  simp [NodeData.body]

theorem nestedPlaced {whole front : List Char} {fresh last : Nat} {ps : List Piece} {f : Forest Node}
    (nested : Nested (.ofText whole) fresh ps f last) (chain : ps.IsChain Piece.Follows)
    (shaped : ∀ p ∈ ps, p.Shaped) (located : Located front ps)
    (inside : front ++ ps.flatMap Piece.text <+: whole) : f.Placed front := by
  have ordered := nestedOpenLast nested chain shaped
  induction nested generalizing front with
  | nil => trivial
  | @leaf fresh data start stop rest next last tail ih =>
    obtain ⟨-, shapes⟩ := List.forall_mem_cons.mp shaped
    obtain ⟨⟨begins, ends⟩, others⟩ := located
    obtain ⟨isLast, -, orders⟩ := ordered
    have same : data.render next.isEmpty "" = data.render true "" := renderLast isLast ""
    have text : front ++ (Piece.leaf data start stop).text =
        front ++ data.raws.before.toList ++ (data.render next.isEmpty "").toList := by
      rw [same, List.append_assoc]
      rfl
    rw [List.flatMap_cons, ← List.append_assoc, text] at inside
    rw [text] at ends others
    have own := covered begins ends ((List.prefix_append _ _).trans inside)
    exact ⟨congrArg some own, trivial, ih chain.tail shapes others inside orders⟩
  | @block fresh data start brace inner after stop rest children middle next last body tail ihb iht =>
    obtain ⟨isBlock, shapes⟩ := List.forall_mem_cons.mp shaped
    obtain ⟨shapesIn, shapesOut⟩ := List.forall_mem_append.mp shapes
    obtain ⟨⟨begins, -⟩, others⟩ := located
    obtain ⟨locatedIn, ⟨-, ends⟩, locatedOut⟩ := locatedAppend others
    obtain ⟨-, ordersIn, ordersOut⟩ := ordered
    have chainIn := chain.tail.left_of_append
    have chainOut := chain.tail.right_of_append.tail
    have printed := nestedPrint body chainIn shapesIn
    have heading : front ++ (Piece.head data start brace).text =
        front ++ data.raws.before.toList ++ (data.heading.toList ++ ['\x7b']) := by
      simp only [Piece.text, List.append_assoc]
    -- the closed block differs from its head in its place and in the layout at its end
    have text (front : List Char) : front ++ (data.heading.toList ++ ['\x7b']) ++ inner.flatMap Piece.text ++
        (Piece.close after stop).text = front ++ (NodeData.render (Frame.close ⟨⟨fresh, data⟩, start, brace, []⟩
          (.ofText whole) after (stop + 1)).data next.isEmpty children.print).toList := by
      rw [renderBraces (by exact isBlock), printed]
      simp only [Piece.text, List.append_assoc]
      rfl
    rw [heading] at ends locatedIn locatedOut
    rw [text] at ends locatedOut
    rw [List.flatMap_cons, List.flatMap_append, List.flatMap_cons, ← List.append_assoc, heading,
      ← List.append_assoc, ← List.append_assoc, text] at inside
    have own := (List.prefix_append _ _).trans inside
    refine ⟨congrArg some (covered begins ends own), ihb chainIn shapesIn locatedIn ?_ ordersIn,
      iht chainOut (List.forall_mem_cons.mp shapesOut).2 locatedOut inside ordersOut⟩
    rw [← text] at own
    exact (List.prefix_append _ _).trans own

namespace Forest
variable {f g : Forest Node} {front : List Char}

theorem Placed.behind {early late : Forest Node} (placed : (early ++ late).Placed front) :
    ∃ more, late.Placed (front ++ more) ∧ (early ++ late).print.toList = more ++ late.print.toList := by
  induction early generalizing front with
  | nil => exact ⟨[], by simpa using placed, rfl⟩
  | cons node children next _ ih =>
    rw [consAppend] at placed ⊢
    obtain ⟨more, later, printed⟩ := ih placed.2.2
    refine ⟨node.data.raws.before.toList ++
      ((node.data.render (next ++ late).isEmpty children.print).toList ++ more), by simpa using later, ?_⟩
    rw [print, String.toList_append, String.toList_append, printed]
    simp only [List.append_assoc]

structure Encloses (front : List Char) (f : Forest Node) (data : NodeData) (children : Forest Node)
    (start head foot rest : List Char) : Prop where
  printed : f.print.toList = start ++ (head ++ children.print.toList ++ foot) ++ rest
  span : data.span = some (.covering (front ++ start) (head ++ children.print.toList ++ foot))
  opens : head ≠ []
  closes : foot ≠ []
  placed : children.Placed (front ++ start ++ head)

theorem Encloses.within {more tail start head foot rest : List Char} {data : NodeData} {children : Forest Node}
    (inner : Encloses (front ++ more) f data children start head foot rest)
    (printed : g.print.toList = more ++ f.print.toList ++ tail) :
    Encloses front g data children (more ++ start) head foot (rest ++ tail) := by
  obtain ⟨text, span, opens, closes, placed⟩ := inner
  refine ⟨?_, ?_, opens, closes, ?_⟩
  · simp only [printed, text, List.append_assoc]
  · rwa [← List.append_assoc]
  · rwa [← List.append_assoc]

theorem Placed.encloses {id : NodeId} {data : NodeData} {children : Forest Node} (placed : f.Placed front)
    (blocks : f.Blocks) (found : f.find? id = some (data, children)) (inhabited : children ≠ nil) :
    ∃ start head foot rest, Encloses front f data children start head foot rest := by
  induction f generalizing front with
  | nil => cases found
  | cons node inner next ihc ihn =>
    obtain ⟨own, inside, tail⟩ := placed
    have printed : (cons node inner next).print.toList = node.data.raws.before.toList ++
        (node.data.render next.isEmpty inner.print).toList ++ next.print.toList := by
      rw [print, String.toList_append, String.toList_append]
    have blocksOut : next.Blocks := by
      cases blocks with
      | leaf _ others => exact others
      | block _ _ others => exact others
    rw [find?] at found
    split at found
    · cases found
      cases blocks with
      | leaf => exact absurd rfl inhabited
      | block block =>
        rw [renderBraces block] at own printed
        rw [← List.append_assoc] at inside
        exact ⟨_, _, _, _, printed, own, by simp, by simp, by simpa using inside⟩
    · rcases Option.or_eq_some_iff.mp found with lower | ⟨-, later⟩
      · cases blocks with
        | leaf => cases lower
        | block block body =>
          rw [renderBraces block] at printed
          rw [List.append_assoc] at inside
          obtain ⟨start, head, foot, rest, enclosed⟩ := ihc inside body lower
          exact ⟨_, head, foot, _, enclosed.within (by simpa using printed)⟩
      · rw [List.append_assoc] at tail
        obtain ⟨start, head, foot, rest, enclosed⟩ := ihn tail blocksOut later
        exact ⟨_, head, foot, rest ++ [], enclosed.within (by simpa using printed)⟩

theorem Placed.ascending (placed : f.Placed front) :
    (∀ node ∈ f.roots, ∃ span, node.data.span = some span ∧ byteSize front ≤ span.start.offset) ∧
      f.roots.Pairwise fun a b => ∃ s t, a.data.span = some s ∧ b.data.span = some t ∧
        s.stop.offset ≤ t.start.offset := by
  induction f generalizing front with
  | nil => simp [roots]
  | cons node children next _ ih =>
    obtain ⟨own, -, tail⟩ := placed
    obtain ⟨later, ordered⟩ := ih tail
    constructor
    · refine List.forall_mem_cons.mpr ⟨⟨_, own, ?_⟩, fun other top => ?_⟩
      · dsimp only [Span.covering, Position.behind]
        rw [Text.byteSizeAppend]
        omega
      · obtain ⟨span, has, behind⟩ := later other top
        simp only [Text.byteSizeAppend] at behind
        exact ⟨span, has, by omega⟩
    · refine List.pairwise_cons.mpr ⟨fun other top => ?_, ordered⟩
      obtain ⟨span, has, behind⟩ := later other top
      exact ⟨_, span, own, has, behind⟩

end Forest

/-! ## Sheets -/

namespace Sheet

def span? (sheet : Sheet) (id : NodeId) : Option Span := (sheet.get? id).bind NodeData.span

variable {source : String} {sheet : Sheet}

theorem parsedBelow (ok : parse source = .ok sheet) {parent : NodeId} {above : NodeData}
    {children : Forest Node} (found : sheet.find? parent = some (above, children))
    (inhabited : children ≠ .nil) :
    ∃ front behind, source.toList = front ++ children.print.toList ++ behind ∧ children.Placed front ∧
      (parent ≠ rootId → ∃ outer, above.span = some outer ∧ outer.start.offset < byteSize front ∧
        byteSize (front ++ children.print.toList) < outer.stop.offset) := by
  obtain ⟨ps, after, cut, nested, root⟩ := parseExact.mp ok
  have text := cutText cut
  have placed : sheet.body.Placed [] :=
    nestedPlaced nested (cutChain cut) (cutShaped cut) (cutLocated cut rfl) ⟨after.toList, text.symm⟩
  rw [← nestedPrint nested (cutChain cut) (cutShaped cut)] at text
  by_cases top : parent = rootId
  · subst top
    cases found
    exact ⟨[], after.toList, text, placed, fun other => absurd rfl other⟩
  · rw [findBody sheet top] at found
    obtain ⟨start, head, foot, rest, printed, span, opens, closes, below⟩ :=
      placed.encloses (nestedBlocks nested (cutShaped cut)) found inhabited
    refine ⟨start ++ head, foot ++ rest ++ after.toList, ?_, below, fun _ => ⟨_, span, ?_, ?_⟩⟩
    · simp [text, printed]
    · have wide := Text.byteSizePos opens
      simp only [Span.covering, Position.behind, List.nil_append, Text.byteSizeAppend]
      omega
    · have wide := Text.byteSizePos closes
      simp only [Span.covering, Position.behind, List.nil_append, Text.byteSizeAppend]
      omega

/- Where a node stands: its span has the text that is printed for it behind its layout, and lies strictly
inside of the span of its parent. Lines and columns are counted exactly at every offset below 2^32 - 1. -/
structure Stands (sheet : Sheet) (source : List Char) (id parent : NodeId) (data : NodeData)
    (front text behind : List Char) : Prop where
  child : sheet.parent? id = some parent
  held : sheet.get? id = some data
  whole : source = front ++ text ++ behind
  span : data.span = some ⟨.behind front, .behind (front ++ text)⟩
  printed : text = (data.render ((sheet.children parent).getLast? == some id) (sheet.below id).print).toList
  inside : parent ≠ rootId → ∃ outer, sheet.span? parent = some outer ∧
    outer.start.offset < byteSize front ∧ byteSize (front ++ text) < outer.stop.offset
  starts : byteSize front + 1 < UInt32.size → (Position.behind front).Exact front
  stops : byteSize (front ++ text) + 1 < UInt32.size → (Position.behind (front ++ text)).Exact (front ++ text)
  edge : byteSize (front ++ text) + 1 = UInt32.size →
    ((Position.behind (front ++ text)).column = 0 ↔ '\n' ∉ front ++ text)

theorem parsedStands (ok : parse source = .ok sheet) {id parent : NodeId} (child : sheet.parent? id = some parent) :
    ∃ data front text behind, sheet.Stands source.toList id parent data front text behind := by
  have distinct := parseDistinct ok
  obtain ⟨above, early, data, children, next, found, own⟩ := distinct.childParts child
  have inhabited : early ++ .cons ⟨id, data⟩ children next ≠ .nil := by
    cases early <;> nofun
  obtain ⟨front, behind, text, placed, outer⟩ := parsedBelow ok found inhabited
  obtain ⟨more, ⟨span, -, -⟩, printed⟩ := placed.behind
  have isLast : ((sheet.children parent).getLast? == some id) = next.isEmpty := by
    rw [Bool.eq_iff_iff, beq_iff_eq, distinct.lastChild found]
    cases next <;> simp [Forest.isEmpty]
  have below : sheet.below id = children := by rw [Sheet.below, own]
  rw [Forest.print, String.toList_append, String.toList_append] at printed
  refine ⟨data, front ++ more ++ data.raws.before.toList, _, next.print.toList ++ behind, child, ?_, ?_, span, ?_, ?_,
    Position.behindExact, Position.behindExact, Position.behindEdge⟩
  · rw [get?, own]
    rfl
  · simp [text, printed]
  · rw [isLast, below]
  · intro inner
    obtain ⟨place, has, starts, stops⟩ := outer inner
    rw [printed] at stops
    simp only [Text.byteSizeAppend] at stops ⊢
    refine ⟨place, ?_, by omega, by omega⟩
    rw [span?, get?, found]
    exact has

theorem parsedAscending (ok : parse source = .ok sheet) (parent : NodeId) :
    (sheet.children parent).Pairwise fun early late =>
      ∃ s t, sheet.span? early = some s ∧ sheet.span? late = some t ∧ s.stop.offset ≤ t.start.offset := by
  cases found : sheet.find? parent with
  | none =>
    rw [(childrenMissing found).1]
    exact .nil
  | some pair =>
    obtain ⟨above, children⟩ := pair
    rw [(childrenFound found).1, List.pairwise_map]
    cases inhabited : children with
    | nil => exact .nil
    | cons =>
      obtain ⟨front, behind, -, placed, -⟩ := parsedBelow ok found (by simp [inhabited])
      have listed {node : Node} (top : node ∈ children.roots) : sheet.span? node.id = node.data.span := by
        rw [span?, (parseDistinct ok).rootData found top]
        rfl
      rw [← inhabited]
      exact placed.ascending.2.imp_of_mem fun first second ⟨s, t, early, late, ordered⟩ =>
        ⟨s, t, (listed first).trans early, (listed second).trans late, ordered⟩

theorem parsedSpans (ok : parse source = .ok sheet) :
    (∀ id, sheet.contains id = true → id ≠ rootId → ∃ parent data front text behind,
      sheet.Stands source.toList id parent data front text behind) ∧
      ∀ parent, (sheet.children parent).Pairwise fun early late =>
        ∃ s t, sheet.span? early = some s ∧ sheet.span? late = some t ∧ s.stop.offset ≤ t.start.offset := by
  refine ⟨fun id isLive other => ?_, parsedAscending ok⟩
  obtain ⟨parent, child, -⟩ := (parseDistinct ok).wellFormed.parentLive id isLive other
  exact ⟨parent, parsedStands ok child⟩

theorem parsedSpansMixed :
    ∃ sheet, parse mixedSource = .ok sheet ∧
      (∀ id, sheet.contains id = true → id ≠ rootId → ∃ parent data front text behind,
        sheet.Stands mixedSource.toList id parent data front text behind) ∧
      ∀ parent, (sheet.children parent).Pairwise fun early late =>
        ∃ s t, sheet.span? early = some s ∧ sheet.span? late = some t ∧ s.stop.offset ≤ t.start.offset := by
  obtain ⟨sheet, ok⟩ := mixedParses
  exact ⟨sheet, ok, parsedSpans ok⟩

theorem lineCommentRead {body : List Char} (oneLine : ∀ c ∈ body, c ≠ '\n') :
    ∃ sheet, parse (.ofList ('/' :: '/' :: body)) = .ok sheet ∧
      sheet.span? 1 = some (.covering [] ('/' :: '/' :: body)) := by
  have all : body.takeWhile (· != '\n') = body :=
    List.takeWhile_eq_self_iff.mpr fun c inside => by simpa using oneLine c inside
  have rest : body.dropWhile (· != '\n') = [] :=
    List.dropWhile_eq_nil_iff.mpr fun c inside => by simpa using oneLine c inside
  have blank : Layout [] := fun _ none => by cases none
  have scanned : Scanned (.ofList []) (0 + byteSize []) ('/' :: '/' :: body) _ _ := .line body
  rw [rest, all] at scanned
  have read : (String.ofList ('/' :: '/' :: body)).toList = [] ++ '/' :: '/' :: body := String.toList_ofList
  have cut : Cut 0 ([] ++ '/' :: '/' :: body) _ _ := .cons blank (by decide) scanned (.nil blank)
  have stop : 0 + byteSize [] + byteSize body + 2 = byteSize ([] ++ '/' :: '/' :: body) := by
    simp only [List.nil_append, Text.byteSizeCons, Text.byteSizeNil]
    change 0 + 0 + byteSize body + 2 = 1 + (1 + byteSize body)
    omega
  have place := LineIndex.spanCovering (List.prefix_refl ([] ++ '/' :: '/' :: body))
  rw [stop, ← read] at cut
  rw [← read] at place
  let sheet : Sheet :=
    { root := { kind := .root, raws := { after := .ofList [] } }
      body := .cons ⟨1, ⟨.comment (.ofList body) true, { before := .ofList [] },
        some ((LineIndex.ofText (String.ofList ('/' :: '/' :: body)).toList).span (byteSize [])
          (byteSize (String.ofList ('/' :: '/' :: body)).toList))⟩⟩ .nil .nil
      fresh := 2 }
  exact ⟨sheet, parseExact.mpr ⟨_, _, cut, .leaf (.nil 2), rfl⟩, congrArg some place⟩

theorem longCommentWraps :
    ∃ source sheet, parse source = .ok sheet ∧ byteSize source.toList < UInt32.size ∧ '\n' ∉ source.toList ∧
      sheet.span? 1 = some ⟨⟨1, 1, 0⟩, ⟨1, 0, byteSize source.toList⟩⟩ := by
  -- slashes only, so that the text is one character over and over
  obtain ⟨count, total⟩ : ∃ count, count + 3 = UInt32.size := ⟨UInt32.size - 3, rfl⟩
  have wrap : UInt32.ofNat (1 + (count + 2)) = 0 := by
    rw [show 1 + (count + 2) = UInt32.size by omega]
    rfl
  have slashes : '/' :: '/' :: List.replicate count '/' = List.replicate (count + 2) '/' := rfl
  have size : byteSize (List.replicate (count + 2) '/') = count + 2 := Text.repeatedSize rfl _
  have oneLine (c : Char) (inside : c ∈ List.replicate count '/') : c ≠ '\n' := by
    rw [List.eq_of_mem_replicate inside]
    decide
  obtain ⟨sheet, ok, place⟩ := lineCommentRead oneLine
  rw [slashes] at ok place
  refine ⟨_, sheet, ok, ?_, ?_, ?_⟩
  · rw [String.toList_ofList, size]
    omega
  · rw [String.toList_ofList]
    exact fun feed => absurd (List.eq_of_mem_replicate feed) (by decide)
  · rw [place, Span.covering, List.nil_append, Position.repeatedBehind rfl, if_neg (by decide), wrap,
      String.toList_ofList, size]
    rfl

end Sheet
end SheetLint
