import SheetLint.Proofs.FixedValues

/-! Which directives a run adds for an alias. The table holds one module for each alias, so a directive is
added whenever the module that is asked for differs from the one asked for last. A pair of alias and module
comes twice only where the alias is bound to another module in between. -/
namespace SheetLint

namespace ImportTable

def sourcesOf (name : String) (entries : Uses) : List String :=
  (entries.filter fun entry => entry.1 = name).map Prod.snd

def changes (bound : Option String) : List String → List String
  | [] => []
  | source :: rest => if bound = some source then changes bound rest else source :: changes (some source) rest

theorem sourcesAppend (name : String) (first second : Uses) :
    sourcesOf name (first ++ second) = sourcesOf name first ++ sourcesOf name second := by
  simp [sourcesOf]

theorem sourcesOwn (name source : String) (rest : Uses) :
    sourcesOf name ((name, source) :: rest) = source :: sourcesOf name rest := by
  simp [sourcesOf]

theorem sourcesOther {name other : String} (differs : other ≠ name) (source : String) (rest : Uses) :
    sourcesOf name ((other, source) :: rest) = sourcesOf name rest := by
  simp [sourcesOf, differs]

theorem changesAppend (bound : Option String) (first second : List String) :
    changes bound (first ++ second) =
      changes bound first ++ changes ((changes bound first).getLast?.or bound) second := by
  induction first generalizing bound with
  | nil => simp [changes]
  | cons source rest ih =>
    rw [List.cons_append, changes, changes]
    split
    · exact ih bound
    · rw [ih, List.cons_append, List.getLast?_cons]
      cases (changes (some source) rest).getLast? <;> rfl

/-! ## The table -/

theorem lookupFirst (name source other : String) (uses : Uses) :
    ((name, source) :: uses).lookup other = if other = name then some source else uses.lookup other := by
  rw [List.lookup_cons]
  split
  · next same => rw [if_pos (beq_iff_eq.mp same)]
  · next differs => rw [if_neg (beq_eq_false_iff_ne.mp differs)]

theorem lookupInsert (name source other : String) (uses : Uses) :
    (insertKey name source uses).lookup other = if other = name then some source else uses.lookup other := by
  induction uses with
  | nil => exact lookupFirst name source other []
  | cons entry rest ih =>
    obtain ⟨key, value⟩ := entry
    rw [insertKey]
    split
    · exact lookupFirst name source other _
    · split
      · next same =>
        subst same
        rw [lookupFirst, lookupFirst]
        split <;> rfl
      · next differs =>
        rw [lookupFirst, lookupFirst, ih]
        split
        · next own => rw [if_neg (own ▸ Ne.symm differs)]
        · rfl

theorem lookupRecord (uses entries : Uses) (name : String) :
    (record uses entries).lookup name = (sourcesOf name entries).getLast?.or (uses.lookup name) := by
  induction entries generalizing uses with
  | nil => rfl
  | cons entry rest ih =>
    obtain ⟨key, source⟩ := entry
    rw [record, List.foldl_cons]
    change (record (insertKey key source uses) rest).lookup name = _
    rw [ih, lookupInsert]
    by_cases same : key = name
    · subst same
      rw [if_pos rfl, sourcesOwn, List.getLast?_cons]
      cases (sourcesOf key rest).getLast? <;> rfl
    · rw [if_neg (Ne.symm same), sourcesOther same]

theorem memSources {name source : String} {entries : Uses} :
    source ∈ sourcesOf name entries ↔ (name, source) ∈ entries := by
  simp [sourcesOf]

theorem sourcesAbsent {name : String} {entries : Uses} (absent : name ∉ entries.map Prod.fst) :
    sourcesOf name entries = [] := by
  refine List.eq_nil_iff_forall_not_mem.mpr fun source listed => absent ?_
  exact List.mem_map_of_mem (f := Prod.fst) (memSources.mp listed)

theorem unmetKeys {uses required : Uses} {name : String} (absent : name ∉ required.map Prod.fst) :
    name ∉ (unmet uses required).map Prod.fst :=
  fun listed => absent ((List.filter_sublist.map Prod.fst).subset listed)

theorem unmetSources {required : Uses} (keyed : (required.map Prod.fst).Nodup) (uses : Uses) (name : String) :
    sourcesOf name (unmet uses required) = changes (uses.lookup name) (sourcesOf name required) := by
  induction required with
  | nil => rfl
  | cons entry rest ih =>
    obtain ⟨key, source⟩ := entry
    obtain ⟨absent, keyed⟩ := List.nodup_cons.mp keyed
    rw [unmet, List.filter_cons]
    change sourcesOf name (if _ then (key, source) :: unmet uses rest else unmet uses rest) = _
    by_cases same : key = name
    · subst same
      rw [sourcesOwn, sourcesAbsent absent, changes, changes, changes]
      split
      · next loose =>
        rw [sourcesOwn, sourcesAbsent (unmetKeys absent), if_neg (by simpa using loose)]
      · next bound =>
        rw [sourcesAbsent (unmetKeys absent), if_pos (by simpa using bound)]
    · rw [sourcesOther same, ← ih keyed]
      split
      · rw [sourcesOther same]
      · rfl

theorem demandedSources {requirements : List Uses}
    (keyed : ∀ required ∈ requirements, (required.map Prod.fst).Nodup) (uses : Uses) (name : String) :
    sourcesOf name (demanded uses requirements) =
      changes (uses.lookup name) (sourcesOf name requirements.flatten) := by
  induction requirements generalizing uses with
  | nil => rfl
  | cons required rest ih =>
    obtain ⟨own, others⟩ := List.forall_mem_cons.mp keyed
    rw [demanded, sourcesAppend, ih others, lookupRecord, unmetSources own, List.flatten_cons, sourcesAppend,
      changesAppend]

/-! ## Repetitions -/

theorem nodupSources {entries : Uses} : entries.Nodup ↔ ∀ name, (sourcesOf name entries).Nodup := by
  induction entries with
  | nil => simp [sourcesOf]
  | cons entry rest ih =>
    obtain ⟨key, source⟩ := entry
    rw [List.nodup_cons, ih]
    constructor
    · intro ⟨absent, others⟩ name
      by_cases same : key = name
      · subst same
        rw [sourcesOwn, List.nodup_cons]
        exact ⟨fun listed => absent (memSources.mp listed), others key⟩
      · rw [sourcesOther same]
        exact others name
    · intro all
      have own := all key
      rw [sourcesOwn, List.nodup_cons] at own
      refine ⟨fun listed => own.1 (memSources.mpr listed), fun name => ?_⟩
      by_cases same : key = name
      · exact same ▸ own.2
      · exact sourcesOther same source rest ▸ all name

theorem changesNone {source : String} {history : List String} (same : ∀ other ∈ history, other = source) :
    changes (some source) history = [] := by
  induction history with
  | nil => rfl
  | cons first rest ih =>
    obtain ⟨rfl, others⟩ := List.forall_mem_cons.mp same
    rw [changes, if_pos rfl, ih others]

theorem changesUnanimous {history : List String} (same : ∀ a ∈ history, ∀ b ∈ history, a = b)
    (bound : Option String) : (changes bound history).Nodup := by
  cases history with
  | nil => exact List.nodup_nil
  | cons source rest =>
    have others : ∀ other ∈ rest, other = source := fun other listed =>
      same other (List.mem_cons_of_mem _ listed) source List.mem_cons_self
    rw [changes]
    split
    · next own => rw [own, changesNone others]; exact List.nodup_nil
    · rw [changesNone others]
      exact List.nodup_singleton source

end ImportTable

/-! ## Runs -/

theorem Matcher.requirementsUses {prop value : String} {matchers : List Matcher} {required : Uses}
    (listed : required ∈ requirements prop matchers value) : ∃ matcher ∈ matchers, required = matcher.uses := by
  induction matchers generalizing value with
  | nil => cases listed
  | cons matcher rest ih =>
    rw [requirements, List.mem_append] at listed
    rcases listed with own | later
    · split at own
      · exact ⟨matcher, List.mem_cons_self, List.mem_singleton.mp own⟩
      · cases own
    · obtain ⟨other, inside, uses⟩ := ih later
      exact ⟨other, List.mem_cons_of_mem _ inside, uses⟩

namespace MagicRule
open ImportTable Forest

def demands (rule : MagicRule) (sheet : Sheet) : List Uses := sheet.body.labels.flatMap rule.asked

theorem demandsUses {rule : MagicRule} {sheet : Sheet} {required : Uses}
    (listed : required ∈ rule.demands sheet) : ∃ matcher ∈ rule.matchers, required = matcher.uses := by
  obtain ⟨node, -, asked⟩ := List.mem_flatMap.mp listed
  rw [MagicRule.asked] at asked
  split at asked
  · exact Matcher.requirementsUses asked
  · cases asked

def added (rule : MagicRule) (sheet : Sheet) : List NodeData :=
  ((rule.run .fix sheet).sheet.body.labels.filter fun node => sheet.fresh ≤ node.id).map
    fun node => node.data.withBefore ""

theorem oldFiltered {f : Forest Node} {fresh : NodeId} (old : ∀ id ∈ f.ids, id < fresh) :
    f.labels.filter (fun node => fresh ≤ node.id) = [] := by
  refine List.filter_eq_nil_iff.mpr fun node inside => ?_
  have := old node.id (labelsIds inside)
  simpa using this

theorem addedDirectives {sheet : Sheet} (distinct : sheet.Distinct)
    (container : sheet.root.isContainer = true) (rule : MagicRule) :
    rule.added sheet =
      (demanded (scan sheet).uses (rule.demands sheet)).map fun entry => directive entry.1 entry.2 := by
  obtain ⟨front, back, behind, added, whole, -, -, body, ids, data, moved⟩ := runParts distinct container rule
  have same : behind.ids = back.ids := by
    rcases moved with rfl | ⟨-, before, rfl⟩
    · rfl
    · exact mapFirstIds _ back
  have old : ∀ id ∈ (front ++ back).ids, id < sheet.fresh := by
    intro id listed
    rw [← whole, Forest.ids, labelsMap, List.map_map] at listed
    exact (distinct.given id listed).2
  simp only [idsAppend, List.mem_append] at old
  have new : added.filter (fun node => sheet.fresh ≤ node.id) = added := by
    refine List.filter_eq_self.mpr fun node listed => ?_
    have place := List.mem_map_of_mem (f := Node.id) listed
    rw [ids] at place
    simpa using (List.mem_range'_1.mp place).1
  rw [MagicRule.added, body, demands, ← data]
  simp only [labelsAppend, List.filter_append, leavesLabels, new,
    oldFiltered fun id listed => old id (.inl listed),
    oldFiltered fun id listed => old id (.inr (same ▸ listed)), List.nil_append, List.append_nil]

theorem directivesFollowRebinding (rule : MagicRule) {sheet : Sheet} (distinct : sheet.Distinct)
    (container : sheet.root.isContainer = true)
    (keyed : ∀ matcher ∈ rule.matchers, (matcher.uses.map Prod.fst).Nodup) :
    ∃ entries : Uses, rule.added sheet = entries.map (fun entry => directive entry.1 entry.2) ∧
      (∀ name, sourcesOf name entries =
        changes ((scan sheet).get? name) (sourcesOf name (rule.demands sheet).flatten)) ∧
      (entries.Nodup ↔ ∀ name,
        (changes ((scan sheet).get? name) (sourcesOf name (rule.demands sheet).flatten)).Nodup) ∧
      ((∀ left ∈ rule.matchers, ∀ right ∈ rule.matchers, ∀ a ∈ left.uses, ∀ b ∈ right.uses,
          a.1 = b.1 → a.2 = b.2) → entries.Nodup) := by
  have single : ∀ required ∈ rule.demands sheet, (required.map Prod.fst).Nodup := by
    intro required listed
    obtain ⟨matcher, inside, rfl⟩ := demandsUses listed
    exact keyed matcher inside
  have sources := demandedSources single (scan sheet).uses
  refine ⟨demanded (scan sheet).uses (rule.demands sheet), addedDirectives distinct container rule, sources,
    ?_, fun agree => ?_⟩
  · rw [nodupSources]
    simp only [sources, ImportTable.get?]
  · refine nodupSources.mpr fun name => ?_
    rw [sources name]
    have used {source : String} (listed : source ∈ sourcesOf name (rule.demands sheet).flatten) :
        ∃ matcher ∈ rule.matchers, (name, source) ∈ matcher.uses := by
      obtain ⟨required, asked, entry⟩ := List.mem_flatten.mp (memSources.mp listed)
      obtain ⟨matcher, inside, rfl⟩ := demandsUses asked
      exact ⟨matcher, inside, entry⟩
    refine changesUnanimous (fun a first b second => ?_) _
    obtain ⟨left, inside, one⟩ := used first
    obtain ⟨right, inside', other⟩ := used second
    exact agree left inside right inside' _ one _ other rfl

def clashingRule : MagicRule :=
  ⟨[⟨"a1", .word, none, some "x", [("foo", "m/a")]⟩, ⟨"b1", .word, none, some "y", [("foo", "m/b")]⟩], .error⟩

def clashingSource : String := ".a \x7b p: a1; q: b1; r: a1 \x7d"

def boundSource : String := "@use 'm/a' as foo; .a \x7b p: a1; q: b1; r: b1 \x7d"

theorem directivesFollowRebindingOnce :
    ∃ sheet, Sheet.parse boundSource = .ok sheet ∧
      sourcesOf "foo" (clashingRule.demands sheet).flatten = ["m/a", "m/b", "m/b"] ∧
      ∃ entries : Uses, clashingRule.added sheet = entries.map (fun entry => directive entry.1 entry.2) ∧
        sourcesOf "foo" entries = ["m/b"] := by
  obtain ⟨sheet, ok⟩ : ∃ sheet, Sheet.parse boundSource = .ok sheet := Sheet.parses (by decide +kernel)
  have computed : (Sheet.parse boundSource).toOption.map (fun sheet =>
      (sheet.root.isContainer, (scan sheet).get? "foo", sourcesOf "foo" (clashingRule.demands sheet).flatten)) =
      some (true, some "m/a", ["m/a", "m/b", "m/b"]) := by decide +kernel
  rw [ok, Except.toOption, Option.map_some, Option.some_inj, Prod.mk.injEq, Prod.mk.injEq] at computed
  obtain ⟨container, bound, asked⟩ := computed
  obtain ⟨entries, added, sources, -, -⟩ := directivesFollowRebinding clashingRule
    (Sheet.parseDistinct ok) container (by decide)
  refine ⟨sheet, ok, asked, entries, added, ?_⟩
  rw [sources "foo", bound, asked]
  decide

theorem aliasReboundTwice :
    ∃ sheet, Sheet.parse clashingSource = .ok sheet ∧
      clashingRule.added sheet = [directive "foo" "m/a", directive "foo" "m/b", directive "foo" "m/a"] := by
  obtain ⟨sheet, ok⟩ : ∃ sheet, Sheet.parse clashingSource = .ok sheet := Sheet.parses (by decide +kernel)
  have found : (Sheet.parse clashingSource).toOption.map clashingRule.added =
      some [directive "foo" "m/a", directive "foo" "m/b", directive "foo" "m/a"] := by decide +kernel
  rw [ok, Except.toOption, Option.map_some, Option.some_inj] at found
  exact ⟨sheet, ok, found⟩

end MagicRule
end SheetLint
