import Crystalline.Frontmatter.MergeSound

/-!
# The merge does not depend on which side is local

Swapping local and upstream keeps the kind of answer and, when both answers
are clean, the preamble, keys and values of the head.  Only key order, the spelling
of an equal value and the delimiter lines follow the upstream side.
-/

namespace Crystalline

open Text

/-- A line merge that treats local and upstream alike. -/
def LineMerge.Symmetric (lineMerge : LineMerge) : Prop :=
  ∀ base localText upstreamText,
    lineMerge base localText upstreamText = lineMerge base upstreamText localText

/-- Which answer a merge gave. -/
inductive MergeKind where
  | clean
  | conflict
  | notApplicable
  deriving DecidableEq

def FrontmatterMerge.kind : FrontmatterMerge → MergeKind
  | .clean _ _ _ _ => .clean
  | .conflict => .conflict
  | .notApplicable => .notApplicable

/-- Whether a step settled. -/
def settled {Result : Type} : Except Unit Result → Bool
  | .ok _ => true
  | .error _ => false

theorem settled_map {Result Image : Type} (step : Except Unit Result)
    (image : Result → Image) : settled (step.map image) = settled step := by
  cases step <;> rfl

/-- What a preamble settles on does not depend on which side is local. -/
theorem settle_swap (base localText upstreamText : Text) :
    settle base localText upstreamText = settle base upstreamText localText := by
  unfold settle
  by_cases agree : localText = upstreamText
  · simp [agree]
  · by_cases localKept : localText = base
    · by_cases upstreamKept : upstreamText = base
      · exact absurd (localKept.trans upstreamKept.symm) agree
      · simp [localKept, upstreamKept]
    · by_cases upstreamKept : upstreamText = base <;>
        simp [agree, Ne.symm agree, localKept, upstreamKept]

section Swap

variable {Value : Type} [DecidableEq Value] {yaml : Yaml Value}
  {lineMerge : LineMerge}

/-- The two blocks have one key when both are there. -/
def SameKey (left right : Option (KeyBlock Value)) : Prop :=
  ∀ l r, left = some l → right = some r → l.parsedKey = r.parsedKey

variable {base localBlock upstreamBlock : Option (KeyBlock Value)}

section

variable (symmetric : lineMerge.Symmetric) (same : SameKey localBlock upstreamBlock)
include symmetric same

theorem mergeThree_swap :
    mergeThree yaml lineMerge base localBlock upstreamBlock =
      mergeThree yaml lineMerge base upstreamBlock localBlock := by
  cases base with
  | none => rfl
  | some b =>
      cases localBlock with
      | none => cases upstreamBlock <;> rfl
      | some l =>
          cases upstreamBlock with
          | none => rfl
          | some u =>
              simp only [mergeThree, mergeBlock, symmetric b.text l.text u.text, same l u rfl rfl]

theorem mergeCarrying_swap (wanted : Option Value) :
    mergeCarrying yaml lineMerge base localBlock upstreamBlock wanted =
      mergeCarrying yaml lineMerge base upstreamBlock localBlock wanted := by
  rw [mergeCarrying, mergeThree_swap symmetric same, mergeCarrying]

end

/-- When a key is no conflict. -/
theorem settled_pick_iff :
    settled (pick yaml lineMerge base localBlock upstreamBlock) = true ↔
      valueOf localBlock = valueOf upstreamBlock ∨
      (valueOf localBlock = valueOf base ∧
        (textOf localBlock = textOf base ∨
          (mergeCarrying yaml lineMerge base localBlock upstreamBlock
            (valueOf upstreamBlock)).isSome)) ∨
      (valueOf upstreamBlock = valueOf base ∧
        (textOf upstreamBlock = textOf base ∨
          (mergeCarrying yaml lineMerge base localBlock upstreamBlock
            (valueOf localBlock)).isSome)) ∨
      (valueOf localBlock ≠ valueOf base ∧ valueOf upstreamBlock ≠ valueOf base ∧
        (mergeThree yaml lineMerge base localBlock upstreamBlock).isSome) := by
  unfold pick
  by_cases agree : valueOf localBlock = valueOf upstreamBlock
  · refine iff_of_true ?_ (Or.inl agree)
    rw [if_pos agree]
    split
    · rfl
    · split
      · rfl
      · split
        · rfl
        · split <;> rfl
  · rw [if_neg agree]
    by_cases localKept : valueOf localBlock = valueOf base
    · have upstreamChanged : valueOf upstreamBlock ≠ valueOf base :=
        fun same => agree (localKept.trans same.symm)
      rw [if_pos localKept]
      split
      · next spelled =>
          exact iff_of_true rfl (Or.inr (Or.inl ⟨localKept, Or.inl spelled⟩))
      · next respelled =>
          split
          · next merged carried =>
              refine iff_of_true rfl (Or.inr (Or.inl ⟨localKept, Or.inr ?_⟩))
              simp [carried]
          · next notCarried =>
              simp [settled, respelled, notCarried, upstreamChanged,
                Ne.symm upstreamChanged, localKept]
    · rw [if_neg localKept]
      by_cases upstreamKept : valueOf upstreamBlock = valueOf base
      · rw [if_pos upstreamKept]
        split
        · next spelled =>
            exact iff_of_true rfl
              (Or.inr (Or.inr (Or.inl ⟨upstreamKept, Or.inl spelled⟩)))
        · next respelled =>
            split
            · next merged carried =>
                refine iff_of_true rfl
                  (Or.inr (Or.inr (Or.inl ⟨upstreamKept, Or.inr ?_⟩)))
                simp [carried]
            · next notCarried =>
                simp [settled, respelled, notCarried, localKept, upstreamKept]
      · rw [if_neg upstreamKept]
        split
        · next merged value threeEq =>
            simp [settled, agree, localKept, upstreamKept, threeEq]
        · next noMerge =>
            simp [settled, agree, localKept, upstreamKept, noMerge]

theorem settled_pick_swap (symmetric : lineMerge.Symmetric)
    (same : SameKey localBlock upstreamBlock) :
    settled (pick yaml lineMerge base localBlock upstreamBlock) =
      settled (pick yaml lineMerge base upstreamBlock localBlock) := by
  rw [Bool.eq_iff_iff, settled_pick_iff, settled_pick_iff,
    mergeThree_swap symmetric same, mergeCarrying_swap symmetric same,
    mergeCarrying_swap symmetric same, eq_comm]
  tauto

theorem settled_mergeKeys_iff {bs ls us order : List (KeyBlock Value)} {head : Text} :
    settled (mergeKeys yaml lineMerge bs ls us head order) = true ↔
      ∀ key ∈ keysOf order, settled
        (pick yaml lineMerge (find bs key) (find ls key) (find us key)) = true := by
  induction order generalizing head with
  | nil => simp [mergeKeys, settled, keysOf]
  | cons block order ih =>
      rw [mergeKeys, keysOf, List.map_cons, List.forall_mem_cons, ← keysOf]
      cases picked : pick yaml lineMerge (find bs block.parsedKey)
          (find ls block.parsedKey) (find us block.parsedKey) with
      | error refusal => simp [settled]
      | ok text =>
          cases text with
          | none => simpa [settled] using ih
          | some text => simpa [settled] using ih

theorem sameKey_find (ls us : List (KeyBlock Value)) (key : Value) :
    SameKey (find ls key) (find us key) := fun _ _ leftEq rightEq =>
  (parsedKey_of_find leftEq).trans (parsedKey_of_find rightEq).symm

theorem settled_mergePrepared_swap (symmetric : lineMerge.Symmetric)
    {bs ls us : Prepared Value} (localSound : ls.Sound yaml)
    (upstreamSound : us.Sound yaml) (l u : FrontmatterParts) :
    settled (mergePrepared yaml lineMerge u bs ls us) =
      settled (mergePrepared yaml lineMerge l bs us ls) := by
  obtain ⟨-, orderKeys, -⟩ := keyOrder_interleaves bs.blocks ls.blocks us.blocks
    localSound.nodup upstreamSound.nodup
  obtain ⟨-, swappedKeys, -⟩ := keyOrder_interleaves bs.blocks us.blocks ls.blocks
    upstreamSound.nodup localSound.nodup
  have keys : ∀ head head', settled (mergeKeys yaml lineMerge bs.blocks ls.blocks
        us.blocks head (keyOrder bs.blocks ls.blocks us.blocks)) =
      settled (mergeKeys yaml lineMerge bs.blocks us.blocks ls.blocks head'
        (keyOrder bs.blocks us.blocks ls.blocks)) := by
    intro head head'
    rw [Bool.eq_iff_iff, settled_mergeKeys_iff, settled_mergeKeys_iff]
    have swap : ∀ key, settled (pick yaml lineMerge (find bs.blocks key)
          (find ls.blocks key) (find us.blocks key)) =
        settled (pick yaml lineMerge (find bs.blocks key) (find us.blocks key)
          (find ls.blocks key)) :=
      fun key => settled_pick_swap symmetric (sameKey_find _ _ key)
    constructor
    · intro all key member
      rw [← swap]
      exact all key ((orderKeys key).mpr ((swappedKeys key).mp member).symm)
    · intro all key member
      rw [swap]
      exact all key ((swappedKeys key).mpr ((orderKeys key).mp member).symm)
  unfold mergePrepared
  rw [settle_swap bs.preamble us.preamble ls.preamble]
  cases settle bs.preamble ls.preamble us.preamble with
  | none => rfl
  | some preamble =>
      simp only [settled_map]
      exact keys _ _

/-- Two results of one key, for either naming of the sides, have one value. -/
theorem KeyOutcome.swap_valueOf (symmetric : lineMerge.Symmetric)
    {base localBlock upstreamBlock result swapped : Option (KeyBlock Value)}
    (outcome : KeyOutcome yaml lineMerge base localBlock upstreamBlock result)
    (mirrored : KeyOutcome yaml lineMerge base upstreamBlock localBlock swapped) :
    valueOf result = valueOf swapped := by
  by_cases agree : valueOf localBlock = valueOf upstreamBlock
  · rw [outcome.agreed agree, mirrored.agreed agree.symm, agree]
  · by_cases localKept : valueOf localBlock = valueOf base
    · rw [outcome.local_unchanged localKept, mirrored.upstream_unchanged localKept]
    · by_cases upstreamKept : valueOf upstreamBlock = valueOf base
      · rw [outcome.upstream_unchanged upstreamKept, mirrored.local_unchanged upstreamKept]
      · obtain ⟨b, l, u, r, block, rfl, rfl, rfl, rfl, mergeEq, cutEq, -, valueEq⟩ :=
          outcome.both_changed agree localKept upstreamKept
        obtain ⟨b', u', l', r', block', baseEq, upstreamEq, localEq, rfl, mergeEq',
          cutEq', -, valueEq'⟩ :=
          mirrored.both_changed (Ne.symm agree) upstreamKept localKept
        obtain rfl := Option.some.inj baseEq
        obtain rfl := Option.some.inj upstreamEq
        obtain rfl := Option.some.inj localEq
        have textEq : r.text = r'.text := Option.some.inj
          (mergeEq.symm.trans ((symmetric _ _ _).trans mergeEq'))
        rw [textEq, cutEq'] at cutEq
        have blockEq : block' = block := by simpa using cutEq
        simp [valueOf, ← valueEq, ← valueEq', blockEq]

theorem kind_eq_of_settled {left right : Except Unit Text}
    (same : settled left = settled right) (b l u b' l' u' : Text) :
    (match left with
      | .ok head => FrontmatterMerge.clean head b l u
      | .error () => .conflict).kind =
    (match right with
      | .ok head => FrontmatterMerge.clean head b' l' u'
      | .error () => .conflict).kind := by
  cases left <;> cases right <;> simp_all [settled, FrontmatterMerge.kind]

/-- The refusals are decided in an order that does not tell the sides apart. -/
theorem mergeFrontmatter_kind_swap (symmetric : lineMerge.Symmetric)
    (base : Option Text) (localText upstreamText : Text) :
    (mergeFrontmatter yaml lineMerge base localText upstreamText).kind =
      (mergeFrontmatter yaml lineMerge base upstreamText localText).kind := by
  unfold mergeFrontmatter
  cases localEq : splitFrontmatter localText with
  | none => cases splitFrontmatter upstreamText <;> rfl
  | some l =>
      cases upstreamEq : splitFrontmatter upstreamText with
      | none => rfl
      | some u =>
          dsimp only
          cases localOk : prepare yaml l.yaml with
          | error localRefusal =>
              cases prepareBase yaml (base.bind splitFrontmatter) with
              | error baseRefusal =>
                  cases prepare yaml u.yaml with
                  | error upstreamRefusal =>
                      cases localRefusal <;> cases baseRefusal <;>
                        cases upstreamRefusal <;> rfl
                  | ok us => cases localRefusal <;> cases baseRefusal <;> rfl
              | ok bs =>
                  cases prepare yaml u.yaml with
                  | error upstreamRefusal =>
                      cases localRefusal <;> cases upstreamRefusal <;> rfl
                  | ok us => cases localRefusal <;> rfl
          | ok ls =>
              cases upstreamOk : prepare yaml u.yaml with
              | error upstreamRefusal =>
                  cases prepareBase yaml (base.bind splitFrontmatter) with
                  | error baseRefusal =>
                      cases baseRefusal <;> cases upstreamRefusal <;> rfl
                  | ok bs => cases upstreamRefusal <;> rfl
              | ok us =>
                  cases prepareBase yaml (base.bind splitFrontmatter) with
                  | error baseRefusal => cases baseRefusal <;> rfl
                  | ok bs =>
                      exact kind_eq_of_settled (settled_mergePrepared_swap symmetric
                        (splitFrontmatter_sound localEq localOk)
                        (splitFrontmatter_sound upstreamEq upstreamOk) l u) ..

/-- Both heads cut to one preamble and to distinct keys, the same ones with the same
values. -/
def SameKeysAndValues (yaml : Yaml Value) (head head' : Text) : Prop :=
  ∃ parts cut parts' cut', splitFrontmatter head = some parts ∧
    keyBlocks yaml parts.yaml = some cut ∧ splitFrontmatter head' = some parts' ∧
    keyBlocks yaml parts'.yaml = some cut' ∧ cut.preamble = cut'.preamble ∧
    (keysOf cut.blocks).Nodup ∧ (keysOf cut'.blocks).Nodup ∧
    ∀ key, valueOf (find cut.blocks key) = valueOf (find cut'.blocks key)

/-- Swapping the sides keeps the kind of answer and, where the line merge keeps
delimiter lines out, what the merged heads say. -/
theorem mergeFrontmatter_swap (symmetric : lineMerge.Symmetric)
    (base : Option Text) (localText upstreamText : Text) :
    (mergeFrontmatter yaml lineMerge base localText upstreamText).kind =
        (mergeFrontmatter yaml lineMerge base upstreamText localText).kind ∧
      (lineMerge.KeepsUndelimited → ∀ head bb lb ub head' bb' lb' ub',
        mergeFrontmatter yaml lineMerge base localText upstreamText =
            .clean head bb lb ub →
          mergeFrontmatter yaml lineMerge base upstreamText localText =
              .clean head' bb' lb' ub' → SameKeysAndValues yaml head head') := by
  refine ⟨mergeFrontmatter_kind_swap symmetric base localText upstreamText, ?_⟩
  intro keeps head bb lb ub head' bb' lb' ub' clean mirrored
  obtain ⟨bs, ls, us, l, u, sides, merged⟩ := mergeFrontmatter_eq_clean clean
  obtain ⟨bs', us', ls', u', l', sides', merged'⟩ := mergeFrontmatter_eq_clean mirrored
  obtain rfl := Option.some.inj (sides.local_split.symm.trans sides'.upstream_split)
  obtain rfl := Option.some.inj (sides.upstream_split.symm.trans sides'.local_split)
  obtain rfl := Except.ok.inj (sides.base_prepared.symm.trans sides'.base_prepared)
  obtain rfl := Except.ok.inj
    (sides.local_prepared.symm.trans sides'.upstream_prepared)
  obtain rfl := Except.ok.inj
    (sides.upstream_prepared.symm.trans sides'.local_prepared)
  have baseSound := prepareBase_sound sides.base_prepared
  have localSound := splitFrontmatter_sound sides.local_split sides.local_prepared
  have upstreamSound :=
    splitFrontmatter_sound sides.upstream_split sides.upstream_prepared
  obtain ⟨parts, cut, splitEq, cutEq, nodup, preamble, outcomes⟩ := mergePrepared_recuts keeps
    (splitFrontmatter_eq_some_iff.mp sides.upstream_split).1 baseSound localSound
    upstreamSound merged
  obtain ⟨parts', cut', splitEq', cutEq', nodup', preamble', outcomes'⟩ :=
    mergePrepared_recuts keeps (splitFrontmatter_eq_some_iff.mp sides.local_split).1
      baseSound upstreamSound localSound merged'
  have onePreamble : cut.preamble = cut'.preamble := by
    rw [settle_swap] at preamble
    exact Option.some.inj (preamble.symm.trans preamble')
  exact ⟨parts, cut, parts', cut', splitEq, cutEq, splitEq', cutEq', onePreamble, nodup, nodup',
    fun key => (outcomes key).swap_valueOf symmetric (outcomes' key)⟩

end Swap

/-- A line merge that answers nothing, so that every block changed on both
sides collides. -/
def neverMerges : LineMerge := fun _ _ _ => none

theorem mergeFrontmatter_swap_added :
    neverMerges.Symmetric ∧
    SameKeysAndValues plainYaml "---\ntitle: b\ntags: t\n---\n".toList
      "---\ntitle: b\ntags: t\n---\n".toList := by
  have symmetric : neverMerges.Symmetric := fun _ _ _ => rfl
  have keeps : neverMerges.KeepsUndelimited := fun _ _ _ _ done => by
    simp [neverMerges] at done
  have clean : mergeFrontmatter plainYaml neverMerges
      (some "---\ntitle: a\n---\n".toList) "---\ntitle: a\ntags: t\n---\n".toList
      "---\ntitle: b\n---\n".toList =
        .clean "---\ntitle: b\ntags: t\n---\n".toList [] [] [] := by decide +kernel
  have mirrored : mergeFrontmatter plainYaml neverMerges
      (some "---\ntitle: a\n---\n".toList) "---\ntitle: b\n---\n".toList
      "---\ntitle: a\ntags: t\n---\n".toList =
        .clean "---\ntitle: b\ntags: t\n---\n".toList [] [] [] := by decide +kernel
  exact ⟨symmetric, (mergeFrontmatter_swap symmetric _ _ _).2 keeps _ _ _ _ _ _ _ _
    clean mirrored⟩

/-- A symmetric line merge that makes a delimiter line: the sides' key orders
differ, so one head loses a key before that line and the other does not. -/
theorem mergeFrontmatter_delimitedMerge_swap :
    (delimitedMerge "x: 4\n".toList).Symmetric ∧
    mergeFrontmatter plainYaml (delimitedMerge "x: 4\n".toList)
        (some "---\nx: 0\n---\n".toList) "---\nx: 1\ny: 1\n---\n".toList
        "---\ny: 1\nx: 2\n---\n".toList =
      .clean "---\ny: 1\n---\n x: 4\n---\n".toList [] [] [] ∧
    mergeFrontmatter plainYaml (delimitedMerge "x: 4\n".toList)
        (some "---\nx: 0\n---\n".toList) "---\ny: 1\nx: 2\n---\n".toList
        "---\nx: 1\ny: 1\n---\n".toList =
      .clean "---\n---\n x: 4\ny: 1\n---\n".toList [] [] [] ∧
    ¬ SameKeysAndValues plainYaml "---\ny: 1\n---\n x: 4\n---\n".toList
      "---\n---\n x: 4\ny: 1\n---\n".toList := by
  refine ⟨fun _ _ _ => rfl, by decide +kernel, by decide +kernel, ?_⟩
  rintro ⟨parts, cut, parts', cut', splitEq, cutEq, splitEq', cutEq', -, -, -, same⟩
  have firstParts : splitFrontmatter "---\ny: 1\n---\n x: 4\n---\n".toList =
      some ⟨"---\n".toList, "y: 1\n".toList, "---\n".toList,
        " x: 4\n---\n".toList⟩ := by decide +kernel
  have secondParts : splitFrontmatter "---\n---\n x: 4\ny: 1\n---\n".toList =
      some ⟨"---\n".toList, [], "---\n".toList, " x: 4\ny: 1\n---\n".toList⟩ := by
    decide +kernel
  obtain rfl := Option.some.inj (firstParts.symm.trans splitEq)
  obtain rfl := Option.some.inj (secondParts.symm.trans splitEq')
  have firstCut : keyBlocks plainYaml "y: 1\n".toList =
      some ⟨[], [plainBlock "y" "1" 2]⟩ := by decide +kernel
  have secondCut : keyBlocks plainYaml [] = some ⟨[], []⟩ := by decide +kernel
  obtain rfl := Option.some.inj (firstCut.symm.trans cutEq)
  obtain rfl := Option.some.inj (secondCut.symm.trans cutEq')
  exact absurd (same (.string "y".toList)) (by decide +kernel)

end Crystalline
