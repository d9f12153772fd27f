import SheetLint.Proofs.Relocation
import SheetLint.Proofs.SoundSheets

/-! Reading back a sheet whose misplaced combinators were fixed. The fix keeps every node sound, so the
print is read back to the same outline exactly if it is legible. It need not be: what was followed by
the end of its line, or by other text, can come to stand in front of a brace. -/
namespace SheetLint

namespace CombinatorRule
open Forest

variable {rule : CombinatorRule} {data : NodeData}

/-! ## The fix keeps nodes sound -/

theorem setSelectorRaws (selector : String) (data : NodeData) :
    (data.setSelector selector).raws = data.raws := by
  unfold NodeData.setSelector
  split <;> rfl

theorem setSelectorBlock (selector : String) (data : NodeData) :
    (data.setSelector selector).kind.isBlock = data.kind.isBlock := by
  unfold NodeData.setSelector
  split
  · next kind =>
    rw [kind]
    rfl
  · rfl

theorem selectorKind {selector : String} (found : data.selector? = some selector) :
    data.kind = .rule selector := by
  unfold NodeData.selector? at found
  split at found
  · next kind =>
    cases found
    exact kind
  · cases found

theorem selectorHeading {selector : String} (sound : data.Sound) (kind : data.kind = .rule selector) :
    Heading selector.toList data.raws.between.toList := by
  cases sound with
  | rule kind' heading =>
    cases kind.symm.trans kind'
    exact heading
  | declaration _ kind' => cases kind.symm.trans kind'
  | _ kind' => cases kind.symm.trans kind'

theorem setSelectorSound {selector : String} {text : List Char} (kind : data.kind = .rule selector)
    (heading : Heading text data.raws.between.toList) : (data.setSelector (.ofList text)).Sound := by
  unfold NodeData.setSelector
  rw [kind]
  exact .rule rfl (by rwa [String.toList_ofList])

theorem carrySound {pending : Option String} (harmless : ∀ c ∈ pending, Harmless c.toList)
    (sound : data.Sound) : (carry pending data).Sound := by
  unfold carry prefixSelector
  split
  · next combinator =>
    split
    · next selector found =>
      have kind := selectorKind found
      exact setSelectorSound kind (prefixHeading (harmless combinator rfl) (selectorHeading sound kind))
    · exact sound
  · exact sound

theorem carryKeeps (pending : Option String) (data : NodeData) :
    (carry pending data).raws = data.raws ∧
      (carry pending data).kind.isBlock = data.kind.isBlock := by
  unfold carry prefixSelector
  split
  · split
    · exact ⟨setSelectorRaws _ _, setSelectorBlock _ _⟩
    · exact ⟨rfl, rfl⟩
  · exact ⟨rfl, rfl⟩

theorem ruleBlock (plain : data.kind.isBlock = false) : data.isRule = false := by
  unfold NodeData.isRule
  split
  · next kind =>
    rw [kind] at plain
    cases plain
  · rfl

theorem faultCases {combinator selector : String} (found : rule.fault? data = some (combinator, selector)) :
    data.kind = .rule selector ∧ combinator ∈ rule.combinators ∧
      combinator.toList <:+ selector.toList := by
  obtain ⟨own, kind, rest⟩ := Option.bind_eq_some_iff.mp found
  obtain ⟨first, detected, same⟩ := Option.map_eq_some_iff.mp rest
  cases same
  have suffix := List.find?_some detected
  exact ⟨selectorKind kind, List.mem_of_find?_eq_some detected, List.isSuffixOf_iff_suffix.mp suffix⟩

theorem shrinkSound {node : Node} {children : Forest Node} {combinator selector : String}
    (sound : node.data.Sound) (kind : node.data.kind = .rule selector)
    (harmless : Harmless combinator.toList) (ends : combinator.toList <:+ selector.toList)
    (blank : Layout node.data.raws.before.toList) (inside : Layout node.data.raws.after.toList)
    (body : children.Sound) : (shrink node combinator selector children).Sound := by
  unfold shrink
  split
  · exact body
  · next left =>
    have rest : remaining combinator selector ≠ [] := by
      intro none
      rw [gone, none] at left
      exact left rfl
    have heading := remainingHeading harmless (selectorHeading sound kind) ends rest
    refine .block (setSelectorSound kind heading) ?_ ?_ ?_ body .nil
    · exact (setSelectorBlock _ _).trans (by rw [kind]; rfl)
    · rwa [setSelectorRaws]
    · rwa [setSelectorRaws]

theorem fixedSound {f : Forest Node} (harmless : ∀ c ∈ rule.combinators, Harmless c.toList)
    (sound : f.Sound) {pending : Option String} (above : ∀ c ∈ pending, Harmless c.toList) :
    (rule.fixed pending f).Sound := by
  -- the combinator that comes from above is one of the rule's own at every depth
  induction sound generalizing pending with
  | nil => exact .nil
  | @leaf node next own plain blank _ ih =>
    obtain ⟨raws, block⟩ := carryKeeps pending node.data
    have other := ruleBlock (block.trans plain)
    rw [fixed, faultRule other]
    exact .leaf (carrySound above own) (block.trans plain) (by rwa [raws]) (ih above)
  | @block node children next own block blank inside body _ ihb iht =>
    obtain ⟨raws, same⟩ := carryKeeps pending node.data
    have ownSound := carrySound above own
    rw [fixed]
    dsimp only
    split
    · next combinator selector found =>
      obtain ⟨kind, listed, ends⟩ := faultCases found
      refine .append (shrinkSound ownSound kind (harmless _ listed) ends ?_ ?_ (ihb ?_)) (iht above)
      · rwa [raws]
      · rwa [raws]
      · rintro _ ⟨⟩
        exact harmless _ listed
    · refine .block ownSound (same.trans block) ?_ ?_ (ihb (by simp)) (iht above)
      · rwa [raws]
      · rwa [raws]

theorem singleHarmless {c : Char} (inert : Scan.State.inert c = true) (visible : isLayout c = false) :
    Harmless [c] :=
  ⟨List.forall_mem_singleton.mpr inert, by rintro _ ⟨⟩; exact visible, List.cons_ne_nil c []⟩

theorem commonHarmless : ∀ combinator ∈ common, Harmless combinator.toList := by
  intro combinator listed
  simp only [common, List.mem_cons, List.not_mem_nil, or_false] at listed
  rcases listed with rfl | rfl | rfl <;> exact singleHarmless rfl rfl

theorem fixedAppend (rule : CombinatorRule) (pending : Option String) (f g : Forest Node) :
    rule.fixed pending (f ++ g) = rule.fixed pending f ++ rule.fixed pending g := by
  induction f with
  | nil => rfl
  | cons node children next _ ih =>
    rw [consAppend, fixed, fixed, ih]
    dsimp only
    split
    · rw [appendAssoc]
    · rfl

/-! ## Whole sheets -/

theorem endsFixed {e : Forest Node} {after : List Char} (ends : e.Ends after) (rule : CombinatorRule) :
    rule.fixed none e = e := by
  rcases ends with rfl | ⟨node, rfl, ends⟩
  · rfl
  · have other : (carry none node.data).isRule = false :=
      ruleBlock (endsLeaf ends.isOpen)
    rw [fixed, faultRule other]
    rfl

theorem fixedSheetSound {sheet : Sheet} (sound : sheet.Sound) {rule : CombinatorRule}
    (harmless : ∀ c ∈ rule.combinators, Harmless c.toList) :
    Sheet.Sound { sheet with body := rule.fixed none sheet.body } := by
  obtain ⟨layout, f, e, body, own, ends⟩ := sound
  refine ⟨layout, rule.fixed none f, e, ?_, fixedSound harmless own (by simp), ends⟩
  dsimp only
  rw [body, fixedAppend, endsFixed ends]

theorem fixedDistinct {sheet : Sheet} (distinct : sheet.Distinct) (rule : CombinatorRule) :
    Sheet.Distinct { sheet with body := rule.fixed none sheet.body } := by
  have fewer := rule.fixedIds none sheet.body
  exact ⟨distinct.once.sublist fewer, fun id inside => distinct.given id (fewer.subset inside),
    distinct.free⟩

end CombinatorRule

/- Fixing misplaced combinators may change what a text means: its print is read back to the tree that
was printed exactly if every node is legible where it now stands. -/
theorem fixedRereadsIffLegible (severity : Severity) {source : String} {sheet : Sheet}
    (ok : Sheet.parse source = .ok sheet) :
    let fixed := ((CombinatorRule.including [] severity).run .fix sheet).sheet
    (∃ again, Sheet.parse fixed.print = .ok again ∧ again.outline = fixed.outline) ↔
      fixed.legible = true := by
  have distinct := Sheet.parseDistinct ok
  rw [CombinatorRule.runFixed _ distinct]
  refine soundRereads (CombinatorRule.fixedDistinct distinct _)
    (CombinatorRule.fixedSheetSound (parsedSound ok) ?_)
  intro combinator listed
  exact CombinatorRule.commonHarmless combinator (by simpa [CombinatorRule.including] using listed)

def misplacedSource : String :=
  "@m (x) \x7b.é\\> , u > \x7b& ~ \x7bb,\tc>\x7bd:e\x7d\x7d/*k*/// x\n f:g\x7d\x7d > " ++
  "\x7bh i+\x7bj\x7b\x7dw:\\;\x7d;k : v ! important\x7d\n#q:( "

def relocatedText : String :=
  "@m (x) \x7b.é\\> , u \x7b> & \x7b~ b,\t~ c\x7bd:e\x7d\x7d/*k*/// x\n f:g\x7d\x7d" ++
  "> h i\x7b+ j\x7b\x7dw:\\;\x7d;k : v ! important;\n#q:( "

theorem misplacedRereads :
    ∃ sheet again, Sheet.parse misplacedSource = .ok sheet ∧
      ((CombinatorRule.including [] .error).run .fix sheet).sheet.print = relocatedText ∧
      Sheet.parse relocatedText = .ok again ∧
      again.outline = ((CombinatorRule.including [] .error).run .fix sheet).sheet.outline := by
  obtain ⟨sheet, ok⟩ : ∃ sheet, Sheet.parse misplacedSource = .ok sheet := Sheet.parses (by decide +kernel)
  have checked : (Sheet.parse misplacedSource).toOption.any (fun sheet =>
      let fixed := ((CombinatorRule.including [] .error).run .fix sheet).sheet
      fixed.legible && fixed.print == relocatedText) = true := by decide +kernel
  rw [ok] at checked
  obtain ⟨legible, printed⟩ := Bool.and_eq_true_iff.mp checked
  obtain ⟨again, reparsed, same⟩ := (fixedRereadsIffLegible .error ok).mpr legible
  rw [beq_iff_eq.mp printed] at reparsed
  exact ⟨sheet, again, ok, beq_iff_eq.mp printed, reparsed, same⟩

theorem hoistedCommentUnclosed :
    ∃ sheet, Sheet.parse "a\x7b> \x7b// x\n\x7d\x7d" = .ok sheet ∧
      ∀ again, Sheet.parse ((CombinatorRule.including [] .error).run .fix sheet).sheet.print ≠ .ok again := by
  obtain ⟨sheet, ok⟩ : ∃ sheet, Sheet.parse "a\x7b> \x7b// x\n\x7d\x7d" = .ok sheet :=
    Sheet.parses (by decide +kernel)
  have failed : (Sheet.parse "a\x7b> \x7b// x\n\x7d\x7d").toOption.any (fun sheet =>
      (Sheet.parse ((CombinatorRule.including [] .error).run .fix sheet).sheet.print).isOk) = false := by
    decide +kernel
  refine ⟨sheet, ok, fun again reparsed => ?_⟩
  rw [ok] at failed
  change (Sheet.parse _).isOk = false at failed
  rw [reparsed] at failed
  cases failed

end SheetLint
