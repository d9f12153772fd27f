import Mathlib.Data.List.Chain
import Mathlib.Data.List.Sections
import SheetLint.Proofs.Relocation
import SheetLint.Proofs.SelectorTerms

/-! What a nested rule selects, before and after misplaced combinators are fixed. A resolved selector
takes one branch of every rule on the way to a node. The fix keeps them where each combinator that is
taken from a rule arrives at the next node on the way; it does not arrive in an at-rule or in a blank
branch, and a rule with several branches hands it on from all of them. -/
namespace SheetLint

/-! ## The way to a node -/

namespace Forest

def wayTo? (id : NodeId) : Forest Node → Option (List NodeData)
  | nil => none
  | cons node children next =>
    if node.id = id then some [node.data]
    else ((wayTo? id children).map (node.data :: ·)).or (wayTo? id next)

variable {f : Forest Node} {id : NodeId}

theorem wayAbsent (absent : id ∉ f.ids) : f.wayTo? id = none := by
  induction f with
  | nil => rfl
  | cons node children next ihc ihn =>
    rw [idsCons, List.mem_cons, List.mem_append, not_or, not_or] at absent
    obtain ⟨other, below, after⟩ := absent
    rw [wayTo?, if_neg (Ne.symm other), ihc below, ihn after]
    rfl

theorem wayAppend (f g : Forest Node) : (f ++ g).wayTo? id = (f.wayTo? id).or (g.wayTo? id) := by
  induction f with
  | nil => rfl
  | cons node children next _ ih =>
    rw [consAppend, wayTo?, wayTo?]
    split
    · rfl
    · rw [ih, Option.or_assoc]

theorem wayPresent {way : List NodeData} (found : f.wayTo? id = some way) : id ∈ f.ids := by
  apply Decidable.byContradiction
  intro absent
  rw [wayAbsent absent] at found
  cases found

theorem wayCases {node : Node} {children next : Forest Node} {way : List NodeData}
    (once : (ids (.cons node children next)).Nodup)
    (found : wayTo? id (.cons node children next) = some way) :
    (node.id = id ∧ way = [node.data] ∧ id ∉ next.ids) ∨
      (node.id ≠ id ∧ id ∉ next.ids ∧ ∃ rest, children.wayTo? id = some rest ∧ way = node.data :: rest) ∨
      (node.id ≠ id ∧ id ∉ children.ids ∧ next.wayTo? id = some way) := by
  obtain ⟨-, topNext, -, -, apart⟩ := distinctCons once
  rw [wayTo?] at found
  split at found
  · next same =>
    cases found
    exact .inl ⟨same, rfl, same ▸ topNext⟩
  · next other =>
    rcases Option.or_eq_some_iff.mp found with inside | ⟨none, behind⟩
    · obtain ⟨rest, below, rfl⟩ := Option.map_eq_some_iff.mp inside
      exact .inr (.inl ⟨other, apart id (wayPresent below), rest, below, rfl⟩)
    · exact .inr (.inr ⟨other, fun both => apart id both (wayPresent behind), behind⟩)

end Forest

/-! ## Resolved selectors -/

namespace Selector

def choices (way : List NodeData) : List (List (List Char)) :=
  ((way.filterMap NodeData.selector?).map branches).sections

def resolved (way : List NodeData) : List String :=
  (choices way).map fun choice => .ofList (tidy (List.intercalate [' '] choice))

/- Whether a combinator that is put in front of every branch comes to stand in all of them. -/
def takes (data : NodeData) : Bool :=
  data.selector?.any fun selector => (branches selector).all fun branch => !(Text.trimStart branch).isEmpty

/- Whether a combinator at the end of a selector, if there is one, belongs to all of the rule and arrives
at the next node. -/
def handsOn (data next : NodeData) : Bool :=
  data.selector?.all fun selector =>
    (CombinatorRule.ending? selector.toList).isNone || !selector.toList.contains ',' && takes next

def HandedOn (way : List NodeData) : Prop := way.IsChain fun data next => handsOn data next = true

instance (way : List NodeData) : Decidable (HandedOn way) :=
  inferInstanceAs (Decidable (way.IsChain fun data next => handsOn data next = true))

def readings (way : List NodeData) : List (List (List Char)) :=
  (choices way).map fun choice => choice.flatMap terms

theorem resolvedReadings (way : List NodeData) :
    resolved way = (readings way).map fun parts => String.ofList (render parts) := by
  simp only [resolved, readings, List.map_map, tidy, termsJoin]
  rfl

variable {data : NodeData} {way : List NodeData} {parts : List (List Char)} {selector : String}

theorem readingsOther (other : data.selector? = none) : readings (data :: way) = readings way := by
  simp [readings, choices, other]

theorem memReadings (rule : data.selector? = some selector) :
    parts ∈ readings (data :: way) ↔
      ∃ branch ∈ branches selector, ∃ rest ∈ readings way, parts = terms branch ++ rest := by
  simp only [readings, choices, List.filterMap_cons, rule, List.map_cons, List.sections, List.mem_map,
    List.mem_flatMap]
  constructor
  · rintro ⟨_, ⟨rest, inside, branch, listed, rfl⟩, rfl⟩
    exact ⟨branch, listed, _, ⟨rest, inside, rfl⟩, rfl⟩
  · rintro ⟨branch, listed, _, ⟨rest, inside, rfl⟩, rfl⟩
    exact ⟨_, ⟨rest, inside, branch, listed, rfl⟩, rfl⟩

end Selector

/-! ## Ways under the fix -/

namespace CombinatorRule
open Forest Selector

def fixedWay (rule : CombinatorRule) (pending : Option String) : List NodeData → List NodeData
  | [] => []
  | data :: way =>
    let own := carry pending data
    match rule.fault? own with
    | some (combinator, selector) =>
      if gone combinator selector then rule.fixedWay (some combinator) way
      else own.setSelector (.ofList (remaining combinator selector)) :: rule.fixedWay (some combinator) way
    | none => own :: rule.fixedWay none way

theorem fixedAbsent {rule : CombinatorRule} {f : Forest Node} {id : NodeId} (absent : id ∉ f.ids)
    (pending : Option String) : (rule.fixed pending f).wayTo? id = none :=
  wayAbsent fun inside => absent ((rule.fixedIds pending f).subset inside)

theorem lastTail {first : NodeData} {way : List NodeData} {good : NodeData → Prop}
    (all : ∀ data ∈ (first :: way).getLast?, good data) : ∀ data ∈ way.getLast?, good data := by
  intro data last
  refine all data ?_
  rw [Option.mem_def] at last ⊢
  rw [List.getLast?_cons, last]
  rfl

theorem fixedWayTo (rule : CombinatorRule) {f : Forest Node} (once : f.ids.Nodup) {id : NodeId}
    {way : List NodeData} (found : f.wayTo? id = some way)
    (stays : ∀ data ∈ way.getLast?, ∀ pending, rule.fault? (carry pending data) = none)
    (pending : Option String) : (rule.fixed pending f).wayTo? id = some (rule.fixedWay pending way) := by
  -- induction on the forest; the node itself is not dissolved, as its selector stays without fault
  induction f generalizing way pending with
  | nil => cases found
  | cons node children next ihc ihn =>
    obtain ⟨-, -, childOnce, nextOnce, -⟩ := distinctCons once
    rw [fixed]
    dsimp only
    rcases wayCases once found with ⟨same, rfl, absent⟩ | ⟨other, absent, rest, below, rfl⟩ |
      ⟨other, absent, behind⟩
    · have settled := stays node.data (by simp) pending
      rw [settled, fixedWay, settled, wayTo?, if_pos same]
      rfl
    · have inside (pending : Option String) := ihc childOnce below (lastTail stays) pending
      rw [fixedWay]
      cases rule.fault? (carry pending node.data) with
      | none =>
        dsimp only
        rw [wayTo?, if_neg other, fixedAbsent absent, Option.or_none, inside]
        rfl
      | some both =>
        obtain ⟨combinator, selector⟩ := both
        dsimp only
        rw [wayAppend, fixedAbsent absent, Option.or_none, shrink]
        split
        · exact inside _
        · rw [wayTo?, if_neg other, inside]
          rfl
    · have after := ihn nextOnce behind stays pending
      split
      · next combinator selector _ =>
        rw [wayAppend, shrink, after]
        split
        · rw [fixedAbsent absent]
          rfl
        · rw [wayTo?, if_neg other, fixedAbsent absent]
          rfl
      · rw [wayTo?, if_neg other, fixedAbsent absent, after]
        rfl

variable {pending : Option Char} {data : NodeData} {way : List NodeData} {selector : String} {c : Char}

theorem fixedWayKept (severity : Severity) (settled : misplaces data = false) :
    (including [] severity).fixedWay (pendingText pending) (data :: way) =
      carry (pendingText pending) data :: (including [] severity).fixedWay (pendingText none) way := by
  rw [fixedWay, faultCarried]
  cases rule : data.selector? with
  | none => rfl
  | some selector =>
    rw [misplacesRule rule, Option.isSome_eq_false_iff, Option.isNone_iff_eq_none] at settled
    rw [Option.bind_some, settled]
    rfl

theorem fixedWayHanded (severity : Severity) (rule : data.selector? = some selector)
    (ends : ending? selector.toList = some c) :
    (including [] severity).fixedWay (pendingText pending) (data :: way) =
      if gone (.ofList [c]) (given pending selector) then
        (including [] severity).fixedWay (pendingText (some c)) way
      else (carry (pendingText pending) data).setSelector
          (.ofList (remaining (.ofList [c]) (given pending selector))) ::
        (including [] severity).fixedWay (pendingText (some c)) way := by
  rw [fixedWay, faultCarried, rule, Option.bind_some, ends]
  rfl

/-! ## Combinators that arrive -/

theorem takesBranches (rule : data.selector? = some selector) (taken : takes data = true) :
    ∀ branch ∈ branches selector, Text.trimStart branch ≠ [] := by
  simpa [takes, rule] using taken

theorem handedTerms (known : ∀ c ∈ pending, isCombinator c = true) (whole : ',' ∉ selector.toList)
    (visible : pending ≠ none → Text.trimStart selector.toList ≠ [])
    (ends : ending? selector.toList = some c) :
    terms (remaining (.ofList [c]) (given pending selector)) ++ [[c]] =
      pending.toList.map ([·]) ++ terms selector.toList := by
  rw [remainingTerms ((givenEnding pending selector).trans ends), givenWhole whole,
    givenTerms known visible]

theorem givenMem (known : ∀ c ∈ pending, isCombinator c = true) (whole : ',' ∉ selector.toList) {d : Char}
    (inside : d ∈ (given pending selector).toList) :
    isCombinator d = true ∨ d = ' ' ∨ d ∈ selector.toList := by
  rw [givenWhole whole] at inside
  cases pending with
  | none => exact .inr (.inr inside)
  | some e =>
    refine (prefixBranchMem inside).imp_left fun own => ?_
    rw [List.mem_singleton.mp own]
    exact known e rfl

theorem handedMem (known : ∀ c ∈ pending, isCombinator c = true) (whole : ',' ∉ selector.toList)
    (ends : ending? selector.toList = some c) {d : Char}
    (inside : d ∈ remaining (.ofList [c]) (given pending selector)) :
    isCombinator d = true ∨ d = ' ' ∨ d ∈ selector.toList := by
  rw [remainingCommon ((givenEnding pending selector).trans ends)] at inside
  exact givenMem known whole (List.dropLast_subset _ (Text.trimMem inside))

theorem givenFree (known : ∀ c ∈ pending, isCombinator c = true) (whole : ',' ∉ selector.toList) :
    ',' ∉ (given pending selector).toList := by
  intro inside
  rcases givenMem known whole inside with combinator | space | before
  · cases combinator
  · cases space
  · exact whole before

theorem handedFree (known : ∀ c ∈ pending, isCombinator c = true) (whole : ',' ∉ selector.toList)
    (ends : ending? selector.toList = some c) :
    ',' ∉ remaining (.ofList [c]) (given pending selector) := by
  intro inside
  rw [remainingCommon ((givenEnding pending selector).trans ends)] at inside
  exact givenFree known whole (List.dropLast_subset _ (Text.trimMem inside))

theorem goneEmpty (known : ∀ c ∈ pending, isCombinator c = true) (whole : ',' ∉ selector.toList)
    (plain : '&' ∉ selector.toList) (ends : ending? selector.toList = some c)
    (isGone : gone (.ofList [c]) (given pending selector) = true) :
    remaining (.ofList [c]) (given pending selector) = [] := by
  rw [gone, Bool.or_eq_true] at isGone
  rcases isGone with empty | nesting
  · exact List.isEmpty_iff.mp empty
  · have inside : '&' ∈ remaining (.ofList [c]) (given pending selector) := by
      rw [beq_iff_eq.mp nesting]
      exact List.mem_singleton_self _
    rcases handedMem known whole ends inside with combinator | space | before
    · cases combinator
    · cases space
    · exact absurd before plain

theorem keptReadings (known : ∀ c ∈ pending, isCombinator c = true) (rule : data.selector? = some selector)
    (taken : pending ≠ none → takes data = true) {after : List NodeData}
    (below : ∀ parts, parts ∈ readings after ↔ parts ∈ readings way) (parts : List (List Char)) :
    parts ∈ readings (carry (pendingText pending) data :: after) ↔
      ∃ rest ∈ readings (data :: way), parts = pending.toList.map ([·]) ++ rest := by
  have each : ∀ branch ∈ branches selector,
      terms (givenBranch pending branch) = pending.toList.map ([·]) ++ terms branch := fun branch listed =>
    givenTerms known fun some => takesBranches rule (taken some) branch listed
  rw [memReadings (carriedRule rule), givenBranches known]
  constructor
  · rintro ⟨_, inside, rest, further, rfl⟩
    obtain ⟨branch, listed, rfl⟩ := List.mem_map.mp inside
    refine ⟨terms branch ++ rest, ?_, by rw [each branch listed, List.append_assoc]⟩
    exact (memReadings rule).mpr ⟨branch, listed, rest, (below rest).mp further, rfl⟩
  · rintro ⟨_, inside, rfl⟩
    obtain ⟨branch, listed, rest, further, rfl⟩ := (memReadings rule).mp inside
    exact ⟨_, List.mem_map_of_mem listed, rest, (below rest).mpr further,
      by rw [each branch listed, List.append_assoc]⟩

theorem handedReadings (known : ∀ c ∈ pending, isCombinator c = true) (rule : data.selector? = some selector)
    (taken : pending ≠ none → takes data = true) (plain : '&' ∉ selector.toList)
    (whole : ',' ∉ selector.toList) (ends : ending? selector.toList = some c) {after : List NodeData}
    (below : ∀ parts, parts ∈ readings after ↔ ∃ rest ∈ readings way, parts = [c] :: rest)
    (parts : List (List Char)) :
    parts ∈ readings (if gone (.ofList [c]) (given pending selector) then after
        else (carry (pendingText pending) data).setSelector
          (.ofList (remaining (.ofList [c]) (given pending selector))) :: after) ↔
      ∃ rest ∈ readings (data :: way), parts = pending.toList.map ([·]) ++ rest := by
  have single : branches selector = [selector.toList] := Text.splitOnWhole whole
  have moved := handedTerms known whole
    (fun some => takesBranches rule (taken some) _ (by rw [single]; exact List.mem_singleton_self _)) ends
  have before : (∃ rest ∈ readings (data :: way), parts = pending.toList.map ([·]) ++ rest) ↔
      ∃ rest ∈ readings way, parts = terms (remaining (.ofList [c]) (given pending selector)) ++ [c] :: rest := by
    simp only [memReadings rule, single, List.mem_singleton, exists_eq_left]
    constructor
    · intro ⟨_, ⟨rest, further, own⟩, same⟩
      refine ⟨rest, further, ?_⟩
      rw [same, own, ← List.append_assoc, ← moved, List.append_assoc, List.singleton_append]
    · intro ⟨rest, further, same⟩
      refine ⟨_, ⟨rest, further, rfl⟩, ?_⟩
      rw [same, ← List.append_assoc, ← moved, List.append_assoc, List.singleton_append]
  rw [before]
  split
  · next isGone =>
    rw [goneEmpty known whole plain ends isGone, below]
    rfl
  · rw [memReadings (setSelectorSelector (carriedRule rule) _), branches, String.toList_ofList,
      Text.splitOnWhole (handedFree known whole ends)]
    simp [below]

theorem fixedReadings (severity : Severity) (known : ∀ c ∈ pending, isCombinator c = true)
    (plain : ∀ data ∈ way, ∀ selector ∈ data.selector?, '&' ∉ selector.toList)
    (taken : pending ≠ none → ∃ first ∈ way.head?, takes first = true)
    (handed : HandedOn way)
    (settled : ∀ data ∈ way.getLast?, ∀ selector ∈ data.selector?, ending? selector.toList = none)
    (parts : List (List Char)) :
    parts ∈ readings ((including [] severity).fixedWay (pendingText pending) way) ↔
      ∃ rest ∈ readings way, parts = pending.toList.map ([·]) ++ rest := by
  -- the terms after the fix are those before it, behind the combinator that comes from above
  induction way generalizing pending parts with
  | nil =>
    cases pending with
    | none => simp [fixedWay]
    | some c => simp at taken
  | cons data way ih =>
    obtain ⟨own, others⟩ := List.forall_mem_cons.mp plain
    have top : pending ≠ none → takes data = true := by simpa using taken
    have last := lastTail settled
    cases rule : data.selector? with
    | none =>
      have none : pending = none := by
        cases pending with
        | none => rfl
        | some c => simp [takes, rule] at top
      subst none
      rw [fixedWayKept severity (misplacesOther rule), readingsOther (carriedOther rule), readingsOther rule]
      exact ih known others (by simp) handed.tail last parts
    | some selector =>
      cases ends : ending? selector.toList with
      | none =>
        rw [fixedWayKept severity (by rw [misplacesRule rule, ends]; rfl)]
        refine keptReadings known rule top (fun parts => ?_) parts
        rw [ih (by simp) others (by simp) handed.tail last parts]
        simp
      | some c =>
        rw [fixedWayHanded severity rule ends]
        cases way with
        | nil => cases (settled data rfl selector rule).symm.trans ends
        | cons next way =>
          have link := (List.isChain_cons_cons.mp handed).1
          simp only [handsOn, rule, ends, Option.all_some, Option.isNone_some, Bool.false_or,
            Bool.and_eq_true, Bool.not_eq_true'] at link
          have whole : ',' ∉ selector.toList := by simpa using link.1
          have combinator := (endingCases ends).1
          refine handedReadings known rule top (own selector rule) whole ends (fun parts => ?_) parts
          exact ih (by simpa using combinator) others (by simpa using link.2) handed.tail last parts

/-! ## Combinators that do not arrive -/

def Single (way : List NodeData) : Prop :=
  ∀ data ∈ way, ∀ selector ∈ data.selector?, ',' ∉ selector.toList

theorem choicesSingle (single : Single way) :
    choices way = [(way.filterMap NodeData.selector?).map String.toList] := by
  induction way with
  | nil => rfl
  | cons data way ih =>
    obtain ⟨own, others⟩ := List.forall_mem_cons.mp single
    have tail := ih others
    unfold choices at tail ⊢
    cases rule : data.selector? with
    | none => simpa only [List.filterMap_cons, rule] using tail
    | some selector =>
      have whole : branches selector = [selector.toList] := Text.splitOnWhole (own selector rule)
      simp [rule, List.sections, whole, tail]

def wording (way : List NodeData) : List (List Char) :=
  (way.filterMap NodeData.selector?).flatMap fun selector => terms selector.toList

theorem resolvedSingle {other : List NodeData} (single : Single way) (alone : Single other)
    (same : ∀ text, text ∈ resolved other ↔ text ∈ resolved way) : wording other = wording way := by
  simp only [resolved, choicesSingle single, choicesSingle alone, List.map_singleton,
    List.mem_singleton] at same
  have equal := tidyExact.mp (String.ofList_injective ((same _).mp rfl))
  rw [termsJoin, termsJoin, List.flatMap_map, List.flatMap_map] at equal
  exact equal

theorem fixedSingle (severity : Severity) (known : ∀ c ∈ pending, isCombinator c = true)
    (single : Single way) : Single ((including [] severity).fixedWay (pendingText pending) way) := by
  induction way generalizing pending with
  | nil => simp [fixedWay, Single]
  | cons data way ih =>
    obtain ⟨own, others⟩ := List.forall_mem_cons.mp single
    have kept := @ih none (by simp) others
    cases rule : data.selector? with
    | none =>
      rw [fixedWayKept severity (misplacesOther rule)]
      refine List.forall_mem_cons.mpr ⟨?_, kept⟩
      simp [carriedOther rule]
    | some selector =>
      have whole := own selector rule
      cases ends : ending? selector.toList with
      | none =>
        rw [fixedWayKept severity (by rw [misplacesRule rule, ends]; rfl)]
        refine List.forall_mem_cons.mpr ⟨?_, kept⟩
        simp only [carriedRule rule, Option.mem_some_iff, forall_eq']
        exact givenFree known whole
      | some c =>
        have tail := @ih (some c) (by simpa using (endingCases ends).1) others
        rw [fixedWayHanded severity rule ends]
        split
        · exact tail
        · refine List.forall_mem_cons.mpr ⟨?_, tail⟩
          simp only [setSelectorSelector (carriedRule rule), Option.mem_some_iff, forall_eq',
            String.toList_ofList]
          exact handedFree known whole ends

/- How many of the combinators that are given up do not arrive. -/
def lost (pending : Bool) : List NodeData → Nat
  | [] => pending.toNat
  | data :: way =>
    (pending && !takes data).toNat + lost (misplaces data) way

theorem lostNone {pending : Bool} (single : Single way) (none : lost pending way = 0) : HandedOn way := by
  induction way generalizing pending with
  | nil => exact .nil
  | cons data way ih =>
    obtain ⟨own, others⟩ := List.forall_mem_cons.mp single
    rw [lost, Nat.add_eq_zero_iff] at none
    have chain := ih others none.2
    cases way with
    | nil => exact .singleton data
    | cons next way =>
      refine List.isChain_cons_cons.mpr ⟨?_, chain⟩
      have first := none.2
      rw [lost, Nat.add_eq_zero_iff] at first
      have first := first.1
      cases rule : data.selector? with
      | none => simp [handsOn, rule]
      | some selector =>
        have whole := own selector rule
        cases ends : ending? selector.toList with
        | none => simp [handsOn, rule, ends]
        | some c =>
          simp only [misplacesRule rule, ends, Option.isSome_some, Bool.true_and, Bool.toNat_eq_zero,
            Bool.not_eq_false'] at first
          simp [handsOn, rule, ends, whole, first]

theorem wordingOther (other : data.selector? = none) : wording (data :: way) = wording way := by
  simp [wording, other]

theorem wordingRule (rule : data.selector? = some selector) :
    wording (data :: way) = terms selector.toList ++ wording way := by
  simp [wording, rule]

theorem takesSingle (rule : data.selector? = some selector) (whole : ',' ∉ selector.toList) :
    takes data = !(Text.trimStart selector.toList).isEmpty := by
  simp [takes, rule, branches, Text.splitOnWhole whole]

theorem blankTerms {text : List Char} (blank : Text.trimStart text = []) :
    terms text = [] ∧ ending? text = none := by
  have all : ∀ c ∈ text, Text.isBlank c = true := by
    have whole := Text.leadingTrimStart text
    rw [blank, List.append_nil] at whole
    rw [← whole]
    exact Text.leadingBlank text
  refine ⟨termsBlanks all, ?_⟩
  cases ends : ending? text with
  | none => rfl
  | some c =>
    obtain ⟨combinator, whole⟩ := endingCases ends
    have last := all c (by rw [← whole]; simp)
    cases last.symm.trans (combinatorVisible combinator)

theorem wordingCount (severity : Severity) (known : ∀ c ∈ pending, isCombinator c = true)
    (plain : ∀ data ∈ way, ∀ selector ∈ data.selector?, '&' ∉ selector.toList) (single : Single way) :
    (wording ((including [] severity).fixedWay (pendingText pending) way)).length +
      lost pending.isSome way = pending.toList.length + (wording way).length := by
  -- every combinator is given up by one selector and, unless it is lost, taken by the next
  induction way generalizing pending with
  | nil => cases pending <;> rfl
  | cons data way ih =>
    obtain ⟨own, others⟩ := List.forall_mem_cons.mp single
    obtain ⟨ownPlain, othersPlain⟩ := List.forall_mem_cons.mp plain
    have kept := @ih none (by simp) othersPlain others
    have size : pending.toList.length = pending.isSome.toNat := by cases pending <;> rfl
    simp only [Option.isSome_none, Option.toList_none, List.length_nil] at kept
    rw [lost, size]
    cases rule : data.selector? with
    | none =>
      have missing : takes data = false := by simp [takes, rule]
      rw [fixedWayKept severity (misplacesOther rule), wordingOther (carriedOther rule), wordingOther rule,
        misplacesOther rule, missing, Bool.not_false, Bool.and_true]
      omega
    | some selector =>
      have whole := own selector rule
      rw [takesSingle rule whole, wordingRule rule, misplacesRule rule, List.length_append]
      by_cases blank : Text.trimStart selector.toList = []
      · obtain ⟨nothing, ends⟩ := blankTerms blank
        rw [fixedWayKept severity (by rw [misplacesRule rule, ends]; rfl), wordingRule (carriedRule rule),
          givenWhole whole, givenBlank blank, nothing, ends, blank]
        simp only [List.isEmpty_nil, Bool.not_true, Bool.not_false, Bool.and_true, List.nil_append,
          List.length_nil, Option.isSome_none]
        omega
      · have shown : (Text.trimStart selector.toList).isEmpty = false := by simpa using blank
        rw [shown, Bool.not_false, Bool.not_true, Bool.and_false, Bool.toNat_false]
        cases ends : ending? selector.toList with
        | none =>
          rw [fixedWayKept severity (by rw [misplacesRule rule, ends]; rfl), wordingRule (carriedRule rule),
            givenWhole whole, givenTerms known fun _ => blank]
          simp only [List.length_append, List.length_map, size, Option.isSome_none]
          omega
        | some c =>
          have given := @ih (some c) (by simpa using (endingCases ends).1) othersPlain others
          have moved := congrArg List.length (handedTerms known whole (fun _ => blank) ends)
          simp only [List.length_append, List.length_map, List.length_singleton, size] at moved
          simp only [Option.isSome_some, Option.toList_some, List.length_singleton] at given ⊢
          rw [fixedWayHanded severity rule ends]
          split
          · next isGone =>
            rw [goneEmpty known whole (ownPlain selector rule) ends isGone] at moved
            simp only [terms, List.length_nil] at moved
            omega
          · rw [wordingRule (setSelectorSelector (carriedRule rule) _), String.toList_ofList,
              List.length_append]
            omega

/-! ## Resolved selectors under the fix -/

theorem fixKeepsResolved (severity : Severity) {source : String} {sheet : Sheet}
    (ok : Sheet.parse source = .ok sheet) {id : NodeId} {way : List NodeData}
    (found : sheet.body.wayTo? id = some way)
    (plain : ∀ data ∈ way, ∀ selector ∈ data.selector?, '&' ∉ selector.toList)
    (settled : ∀ data ∈ way.getLast?, ∀ selector ∈ data.selector?, ending? selector.toList = none) :
    ∃ after, ((including [] severity).run .fix sheet).sheet.body.wayTo? id = some after ∧
      (HandedOn way → ∀ text, text ∈ resolved after ↔ text ∈ resolved way) ∧
      (Single way → (∀ text, text ∈ resolved after ↔ text ∈ resolved way) → HandedOn way) := by
  have distinct := Sheet.parseDistinct ok
  refine ⟨(including [] severity).fixedWay none way, ?_, fun handed text => ?_, fun single same => ?_⟩
  · rw [runFixed _ distinct]
    exact fixedWayTo _ distinct.once found (fun data last => faultNever severity (settled data last)) none
  · have readings := @fixedReadings none way severity (by simp) plain (by simp) handed settled
    simp only [Option.toList_none, List.map_nil, List.nil_append, exists_eq_right'] at readings
    simp only [resolvedReadings, List.mem_map]
    exact exists_congr fun parts => and_congr_left' (readings parts)
  · have words := resolvedSingle single (@fixedSingle none way severity (by simp) single) same
    have count := @wordingCount none way severity (by simp) plain single
    rw [words] at count
    refine @lostNone way false single ?_
    change _ + lost false way = 0 + _ at count
    omega

def descent : String := "x \x7b> \x7b.a + \x7b.b, .c \x7b@m \x7bd \x7b\x7d\x7d\x7d\x7d\x7d\x7d"

theorem fixKeepsResolvedDescent :
    ∃ sheet way after, Sheet.parse descent = .ok sheet ∧ sheet.body.wayTo? 6 = some way ∧ HandedOn way ∧
      ((including [] .error).run .fix sheet).sheet.body.wayTo? 6 = some after ∧
      resolved way = ["x>.a+.b d", "x>.a+.c d"] ∧ ∀ text, text ∈ resolved after ↔ text ∈ resolved way := by
  have seen : (Sheet.parse descent).toOption.bind (fun sheet => (sheet.body.wayTo? 6).map fun way =>
      decide (HandedOn way ∧ resolved way = ["x>.a+.b d", "x>.a+.c d"] ∧
        (∀ data ∈ way, ∀ selector ∈ data.selector?, '&' ∉ selector.toList) ∧
        ∀ data ∈ way.getLast?, ∀ selector ∈ data.selector?, ending? selector.toList = none)) = some true := by
    decide +kernel
  obtain ⟨sheet, ok⟩ : ∃ sheet, Sheet.parse descent = .ok sheet := Sheet.parses (by decide +kernel)
  rw [ok, Except.toOption, Option.bind_some, Option.map_eq_some_iff] at seen
  obtain ⟨way, found, facts⟩ := seen
  obtain ⟨handed, before, plain, settled⟩ := of_decide_eq_true facts
  obtain ⟨after, further, kept, -⟩ := fixKeepsResolved .error ok found plain settled
  exact ⟨sheet, way, after, ok, found, handed, further, before, kept handed⟩

/- An at-rule takes no combinator, so a child becomes a descendant. -/
theorem atRuleLosesCombinator :
    ((Sheet.parse ".a > \x7b @media print \x7b .b \x7b\x7d \x7d \x7d").toOption.map fun sheet =>
      ((sheet.body.wayTo? 3).map resolved,
        (((including [] .error).run .fix sheet).sheet.body.wayTo? 3).map resolved)) =
      some (some [".a>.b"], some [".a .b"]) := by
  decide +kernel

example :
    ((Sheet.parse ".a, .b > \x7b .c \x7b\x7d \x7d").toOption.map fun sheet =>
      ((sheet.body.wayTo? 2).map resolved,
        (((including [] .error).run .fix sheet).sheet.body.wayTo? 2).map resolved)) =
      some (some [".a .c", ".b>.c"], some [".a>.c", ".b>.c"]) := by
  decide +kernel

end CombinatorRule
end SheetLint
