import SheetLint.Proofs.Legible

/-! Reading back a whole forest. Its print has the marks of the forest if it is legible; if it is not,
the first node that is misread shows in the sequence of kinds. -/
namespace SheetLint.Forest

inductive Sound : Forest Node → Prop where
  | nil : Sound nil
  | leaf {node next} (sound : node.data.Sound) (plain : node.kind.isBlock = false)
      (blank : Layout node.data.raws.before.toList) (tail : Sound next) : Sound (cons node nil next)
  | block {node children next} (sound : node.data.Sound) (block : node.kind.isBlock = true)
      (blank : Layout node.data.raws.before.toList) (inside : Layout node.data.raws.after.toList)
      (body : Sound children) (tail : Sound next) : Sound (cons node children next)

theorem Sound.blocks {f : Forest Node} (sound : f.Sound) : f.Blocks := by
  induction sound with
  | nil => exact .nil
  | leaf _ plain _ _ ih => exact .leaf plain ih
  | block _ block _ _ _ _ ihb iht => exact .block block ihb iht

theorem Sound.append {f g : Forest Node} (sound : f.Sound) (more : g.Sound) : (f ++ g).Sound := by
  induction sound with
  | nil => exact more
  | leaf own plain blank _ ih => exact .leaf own plain blank ih
  | block own block blank inside body _ _ iht => exact .block own block blank inside body iht

variable {e : Forest Node} {follow : List Char}

theorem tailAppend {f : Forest Node} (tail : e.isEmpty = true → Tail follow) :
    (f ++ e).isEmpty = true → Tail ((f ++ e).print.toList ++ follow) := by
  intro none
  cases f with
  | nil =>
    cases e with
    | nil => exact tail rfl
    | cons => cases none
  | cons => cases none

@[simp] theorem printNil : (nil : Forest Node).print.toList = [] := rfl

theorem printBlock {node : Node} (block : node.kind.isBlock = true) (children next : Forest Node)
    (follow : List Char) :
    (cons node children next).print.toList ++ follow =
      node.data.raws.before.toList ++ (node.data.heading.toList ++ '\x7b' :: (children.print.toList ++
        (node.data.raws.after.toList ++ '\x7d' :: (next.print.toList ++ follow)))) := by
  rw [print, renderBlock block, NodeData.body]
  simp

theorem printLeaf (node : Node) (next : Forest Node) (follow : List Char) :
    (cons node nil next).print.toList ++ follow = node.data.raws.before.toList ++
      ((node.data.render next.isEmpty "").toList ++ (next.print.toList ++ follow)) := by
  simp [print]

theorem closeMarks {layout : List Char} (blank : Layout layout) (more : List Char) :
    SheetLint.marks (layout ++ '\x7d' :: more) = (SheetLint.marks more).map (none :: ·) := by
  have found : scanMark ('\x7d' :: more) = some (none, more) :=
    (scanMarkExact "" 0).mpr ⟨_, .close more, rfl⟩
  rw [marksStep blank rfl, found, Option.bind_some]

theorem closeTail {layout : List Char} (blank : Layout layout) (more : List Char) :
    Tail (layout ++ '\x7d' :: more) := ⟨layout, _, rfl, blank, .inr ⟨more, rfl⟩⟩

theorem bodyFollow (layout more : List Char) :
    (layout ++ ['\x7d']).head? = (layout ++ '\x7d' :: more).head? := by
  cases layout <;> rfl

theorem readsBack {f : Forest Node} (sound : f.Sound) (tail : e.isEmpty = true → Tail follow)
    (legible : (f ++ e).legible follow.head? = true) :
    SheetLint.marks ((f ++ e).print.toList ++ follow) =
      (SheetLint.marks (e.print.toList ++ follow)).map (f.marks ++ ·) := by
  -- for any text behind the forest, as the children of a block are followed by its closing brace
  induction sound generalizing e follow with
  | nil => simp [marks]
  | @leaf node next own plain blank _ ih =>
    rw [consAppend, Forest.legible, ← List.head?_append, Bool.and_eq_true, Bool.and_eq_true] at legible
    obtain ⟨⟨first, -⟩, others⟩ := legible
    rw [consAppend, printLeaf, leafReads own plain blank (tailAppend tail) first, ih tail others,
      Forest.marks, plain, Option.map_map]
    rfl
  | @block node children next own block blank inside body _ ihb iht =>
    rw [consAppend, Forest.legible, Bool.and_eq_true, Bool.and_eq_true] at legible
    obtain ⟨⟨first, within⟩, others⟩ := legible
    have inner (more : List Char) := @ihb nil (node.data.raws.after.toList ++ '\x7d' :: more)
      (fun _ => closeTail inside more) (by rw [appendNil, ← bodyFollow]; exact within)
    simp only [appendNil, printNil, List.nil_append] at inner
    rw [consAppend, printBlock block, blockReads own block blank first, inner, closeMarks inside,
      iht tail others, Forest.marks, block]
    simp only [Option.map_map]
    congr 1
    funext ms
    simp [Node.kind]

theorem bodyReads {f : Forest Node} (sound : f.Sound) {layout : List Char} (blank : Layout layout)
    (legible : f.legible (layout ++ ['\x7d']).head? = true) (more : List Char) :
    SheetLint.marks (f.print.toList ++ (layout ++ '\x7d' :: more)) =
      (SheetLint.marks more).map (f.marks ++ none :: ·) := by
  have read := @readsBack nil (layout ++ '\x7d' :: more) f sound (fun _ => closeTail blank more)
    (by rw [appendNil, ← bodyFollow]; exact legible)
  rw [appendNil, printNil, List.nil_append, closeMarks blank, Option.map_map] at read
  exact read

@[simp] theorem kindsAppend (f g : Forest Node) : (f ++ g).kinds = f.kinds ++ g.kinds := by
  simp [kinds]

theorem kindsCons (node : Node) (children next : Forest Node) :
    (cons node children next).kinds = node.kind :: (children.kinds ++ next.kinds) := by
  simp [kinds, labels]

theorem misreads {f : Forest Node} (sound : f.Sound) (tail : e.isEmpty = true → Tail follow)
    (ends : e.legible follow.head? = true) (bad : (f ++ e).legible follow.head? = false)
    {ms : List (Option Kind)} (found : SheetLint.marks ((f ++ e).print.toList ++ follow) = some ms) :
    ¬ f.kinds <+: ms.reduceOption := by
  -- all nodes in front of the first illegible one are read back, and that one is not
  induction sound generalizing e follow ms with
  | nil => cases bad.symm.trans ends
  | @leaf node next own plain blank _ ih =>
    rw [consAppend, printLeaf] at found
    rw [consAppend, Forest.legible, ← List.head?_append] at bad
    cases first : node.data.legible (next ++ e).isEmpty ((next ++ e).print.toList ++ follow).head? with
    | false => exact (leafMisreads own plain blank first).differs found _
    | true =>
      rw [first, Bool.true_and] at bad
      rw [leafReads own plain blank (tailAppend tail) first] at found
      obtain ⟨others, behind, rfl⟩ := Option.map_eq_some_iff.mp found
      rw [List.reduceOption_cons_of_some]
      intro within
      exact ih tail ends bad behind ((List.prefix_cons_inj _).mp within)
  | @block node children next own block blank inside body _ ihb iht =>
    rw [consAppend, printBlock block] at found
    rw [consAppend, Forest.legible] at bad
    cases first : node.data.legible (next ++ e).isEmpty ((next ++ e).print.toList.head?.or follow.head?) with
    | false => exact (blockMisreads own block blank first).differs found _
    | true =>
      rw [first, Bool.true_and] at bad
      rw [blockReads own block blank first] at found
      obtain ⟨others, behind, rfl⟩ := Option.map_eq_some_iff.mp found
      rw [List.reduceOption_cons_of_some, kindsCons]
      intro within
      have within := (List.prefix_cons_inj _).mp within
      cases legible : children.legible (node.data.raws.after.toList ++ ['\x7d']).head? with
      | false =>
        rw [bodyFollow _ ((next ++ e).print.toList ++ follow)] at legible
        rw [← appendNil children] at behind legible
        exact ihb (fun _ => closeTail inside _) rfl legible behind ((List.prefix_append _ _).trans within)
      | true =>
        rw [legible, Bool.true_and] at bad
        rw [bodyReads body inside legible] at behind
        obtain ⟨rest, further, rfl⟩ := Option.map_eq_some_iff.mp behind
        rw [List.reduceOption_append, marksKinds body.blocks, List.reduceOption_cons_of_none] at within
        exact iht tail ends bad further ((List.prefix_append_right_inj _).mp within)

end SheetLint.Forest
