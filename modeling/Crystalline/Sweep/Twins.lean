import Crystalline.Ranking.Bounded
import Crystalline.Ranking.Floats

/-!
# Semantic twins

Every two present vectors of one width are compared, and the closest pairs at or
above a threshold are retained.
-/

namespace Crystalline.Sweep

open Ranking

/-- What the sweep's passes over pairs read of its options. -/
structure SweepOptions where
  dupThreshold : F64
  minDupBodyChars : Nat
  maxBucket : Nat
  maxCandidatePairs : Nat
  minhashHashes : Nat
  minhashBands : Nat
  minhashRows : Nat
  twinThreshold : F64
  maxTwinVectors : Nat
  maxTwinPairs : Nat

structure TwinPair where
  a : Nat
  b : Nat
  cosine : F64
  deriving DecidableEq

structure TwinPairs where
  pairs : List TwinPair
  compared : Nat
  capped : Bool

namespace TwinPair

/-- `Ranked::cmp`. -/
def rankedCmp (pair other : TwinPair) : Ordering :=
  (pair.cosine.totalCmp other.cosine).then
    ((compare other.a pair.a).then (compare other.b pair.b))

/-- Nearer to the front, or the same pair. -/
def Before (pair other : TwinPair) : Prop := pair.rankedCmp other ≠ .lt

instance : DecidableRel Before := fun _ _ => inferInstanceAs (Decidable (_ ≠ _))

end TwinPair

/-- The heap of the pairs retained, the weakest on top: what `into_sorted_vec` makes
of it. -/
abbrev Retained : Type := List TwinPair

namespace Retained

def push (best : Retained) (pair : TwinPair) : Retained :=
  best.orderedInsert TwinPair.Before pair

/-- `peek`. -/
def weakest (best : Retained) : Option TwinPair := best.getLast?

def pop (best : Retained) : Retained := best.dropLast

/-- A pair over the threshold, taken while there is room or for the weakest. -/
def offer (limit : Nat) (best : Retained) (pair : TwinPair) : Retained :=
  if best.length < limit then best.push pair
  else
    match best.weakest with
    | none => best
    | some weakest => if pair.rankedCmp weakest = .gt then best.pop.push pair else best

end Retained

section Find

variable {Component : Type} (cosine : List Component → List Component → F64)

/-- The present vectors with their indices. -/
def present (vectors : List (Option (List Component))) : List (Nat × List Component) :=
  vectors.zipIdx.filterMap fun entry => entry.1.map fun slice => (entry.2, slice)

/-- A pair of equally wide vectors that the filter keeps and the threshold does not
refuse. -/
def score (options : SweepOptions) (keep : Nat → Nat → Bool)
    (left right : Nat × List Component) : Option TwinPair :=
  if left.2.length ≠ right.2.length then none
  else
    let sim := cosine left.2 right.2
    if sim.lt options.twinThreshold || !keep left.1 right.1 then none
    else some ⟨left.1, right.1, sim⟩

/-- The walk over all pairs. -/
def walkPairs (options : SweepOptions) (keep : Nat → Nat → Bool) :
    List (Nat × List Component) → Retained → Retained
  | [], best => best
  | left :: rest, best =>
      walkPairs options keep rest <| rest.foldl
        (fun best right =>
          match score cosine options keep left right with
          | none => best
          | some pair => best.offer options.maxTwinPairs pair)
        best

/-- `find_twins_where`. -/
def findTwinsWhere (vectors : List (Option (List Component))) (options : SweepOptions)
    (keep : Nat → Nat → Bool) : TwinPairs :=
  let present := present vectors
  if options.maxTwinVectors < present.length then
    { pairs := [], compared := present.length, capped := true }
  else
    { pairs := walkPairs cosine options keep present []
      compared := present.length
      capped := false }

/-- The pairs of a list, each entry with the later ones. -/
def pairsOf {α : Type*} : List α → List (α × α)
  | [] => []
  | left :: rest => rest.map (Prod.mk left) ++ pairsOf rest

/-- The pairs of present, equally wide vectors that a filter keeps. -/
def keptPairs (vectors : List (Option (List Component))) (keep : Nat → Nat → Bool) :
    List TwinPair :=
  (pairsOf (present vectors)).filterMap fun pair =>
    if pair.1.2.length = pair.2.2.length ∧ keep pair.1.1 pair.2.1 = true then
      some ⟨pair.1.1, pair.2.1, cosine pair.1.2 pair.2.2⟩
    else none

/-- The cosine is a number at or above the threshold. -/
def SweepOptions.isTwin (options : SweepOptions) (pair : TwinPair) : Bool :=
  options.twinThreshold.le pair.cosine

end Find

namespace TwinPair

theorem before_iff {pair other : TwinPair} : pair.Before other ↔
    other.cosine.rank < pair.cosine.rank ∨
      (pair.cosine.rank = other.cosine.rank ∧
        (pair.a < other.a ∨ (pair.a = other.a ∧ pair.b ≤ other.b))) := by
  rw [Before, rankedCmp, Binary.totalCmp]
  rcases lt_trichotomy pair.cosine.rank other.cosine.rank with less | same | more
  · rw [compare_lt_iff_lt.mpr less]
    simp [Ordering.then]
    omega
  · rw [compare_eq_iff_eq.mpr same]
    rcases lt_trichotomy other.a pair.a with less' | same' | more'
    · rw [compare_lt_iff_lt.mpr less']
      simp [Ordering.then]
      omega
    · rw [compare_eq_iff_eq.mpr same']
      simp only [Ordering.then]
      rw [ne_eq, compare_lt_iff_lt]
      omega
    · rw [compare_gt_iff_gt.mpr more']
      simp [Ordering.then]
      omega
  · rw [compare_gt_iff_gt.mpr more]
    simp [Ordering.then]
    omega

instance : Std.Total Before where
  total pair other := by
    rw [before_iff, before_iff]
    omega

instance : IsTrans TwinPair Before where
  trans pair middle other := by
    rw [before_iff, before_iff, before_iff]
    omega

instance : Std.Antisymm Before where
  antisymm pair other := by
    rw [before_iff, before_iff]
    intro first second
    have ranks : pair.cosine.rank = other.cosine.rank := by omega
    obtain ⟨a, b, cosine⟩ := pair
    obtain ⟨a', b', cosine'⟩ := other
    obtain rfl := Binary.rank_injective ranks
    simp only [TwinPair.mk.injEq, and_true]
    dsimp only at first second
    omega

theorem swap_rankedCmp (pair other : TwinPair) :
    (pair.rankedCmp other).swap = other.rankedCmp pair := by
  rw [rankedCmp, rankedCmp, Ordering.swap_then, Ordering.swap_then, Binary.totalCmp,
    Binary.totalCmp, ← Std.OrientedCmp.eq_swap, ← Std.OrientedCmp.eq_swap,
    ← Std.OrientedCmp.eq_swap]

theorem before_of_not_gt {pair weakest : TwinPair} (loses : pair.rankedCmp weakest ≠ .gt) :
    weakest.Before pair := by
  intro less
  rw [← swap_rankedCmp, Ordering.swap_eq_lt] at less
  exact loses less

end TwinPair

section Prefix

variable {Component : Type} {cosine : List Component → List Component → F64}
  {options : SweepOptions} {keep : Nat → Nat → Bool} {vectors : List (Option (List Component))}

/-- What the heap does with a pair: it keeps the best ones. -/
theorem Retained.offer_eq_keep {limit : Nat} {best : Retained} (pair : TwinPair)
    (inOrder : best.Pairwise TwinPair.Before) (bounded : best.length ≤ limit) :
    best.offer limit pair = Ranking.keep TwinPair.Before limit best pair := by
  rw [offer]
  split
  next room => exact (keep_of_room TwinPair.Before room).symm
  next full =>
    have full : best.length = limit := by omega
    rcases List.eq_nil_or_concat best with rfl | ⟨others, weakest, rfl⟩
    · exact (keep_of_full TwinPair.Before full inOrder (fun _ member => by cases member)).symm
    · rw [Retained.weakest, List.concat_eq_append, List.getLast?_concat]
      dsimp only
      rw [List.concat_eq_append] at full inOrder
      split
      next wins =>
        rw [keep_of_before_last TwinPair.Before full inOrder, pop, List.dropLast_concat, push]
        rw [TwinPair.Before, wins]
        decide
      next loses =>
        refine (keep_of_full TwinPair.Before full inOrder ?_).symm
        intro other member
        have last := TwinPair.before_of_not_gt loses
        rcases List.mem_append.mp member with inside | single
        · exact IsTrans.trans _ _ _
            ((List.pairwise_append.mp inOrder).2.2 other inside weakest
              (List.mem_singleton_self weakest)) last
        · rw [List.mem_singleton.mp single]
          exact last

theorem walkPairs_eq_foldl (list : List (Nat × List Component)) (best : Retained) :
    walkPairs cosine options keep list best =
      ((pairsOf list).filterMap fun pair => score cosine options keep pair.1 pair.2).foldl
        (Retained.offer options.maxTwinPairs) best := by
  induction list generalizing best with
  | nil => rfl
  | cons left rest induction =>
      rw [walkPairs, induction, pairsOf, List.filterMap_append, List.foldl_append]
      congr 1
      rw [List.filterMap_map]
      clear induction
      induction rest generalizing best with
      | nil => rfl
      | cons right rest induction =>
          rw [List.foldl_cons, induction]
          cases scored : score cosine options keep left right with
          | none => rw [List.filterMap_cons_none (by exact scored)]
          | some pair => rw [List.filterMap_cons_some (by exact scored), List.foldl_cons]

theorem filterMap_score : ((pairsOf (present vectors)).filterMap fun pair =>
      score cosine options keep pair.1 pair.2) =
    (keptPairs cosine vectors keep).filter fun pair => !pair.cosine.lt options.twinThreshold := by
  rw [keptPairs, List.filter_filterMap]
  apply List.filterMap_congr
  intro pair _
  rw [score]
  by_cases wide : pair.1.2.length = pair.2.2.length
  · cases kept : keep pair.1.1 pair.2.1 with
    | false => simp
    | true =>
        cases refused : (cosine pair.1.2 pair.2.2).lt options.twinThreshold <;>
          simp [wide, refused, Option.filter_some]
  · simp [wide]

theorem findTwinsWhere_pairs (fits : (present vectors).length ≤ options.maxTwinVectors) :
    (findTwinsWhere cosine vectors options keep).pairs =
      (((keptPairs cosine vectors keep).filter fun pair =>
        !pair.cosine.lt options.twinThreshold).insertionSort TwinPair.Before).take
          options.maxTwinPairs := by
  rw [findTwinsWhere, if_neg (by omega), walkPairs_eq_foldl, filterMap_score, ← foldl_keep_nil]
  exact foldl_eq_foldl_keep TwinPair.Before _
    (fun best pair inOrder bounded => Retained.offer_eq_keep pair inOrder bounded) _ .nil
    (Nat.zero_le _)

/-- The pairs of a list in strict order. -/
theorem mem_pairsOf {α : Type*} {less : α → α → Prop} {list : List α} (inOrder : list.Pairwise less)
    (asymm : ∀ left right, less left right → ¬ less right left) {left right : α} :
    (left, right) ∈ pairsOf list ↔ left ∈ list ∧ right ∈ list ∧ less left right := by
  induction list with
  | nil => simp [pairsOf]
  | cons first rest induction =>
      obtain ⟨ahead, inOrder⟩ := List.pairwise_cons.mp inOrder
      rw [pairsOf, List.mem_append, induction inOrder]
      constructor
      · rintro (here | ⟨inLeft, inRight, isLess⟩)
        · obtain ⟨other, member, same⟩ := List.mem_map.mp here
          obtain ⟨rfl, rfl⟩ := Prod.mk.inj same
          exact ⟨List.mem_cons_self, List.mem_cons_of_mem _ member, ahead other member⟩
        · exact ⟨List.mem_cons_of_mem _ inLeft, List.mem_cons_of_mem _ inRight, isLess⟩
      · rintro ⟨inLeft, inRight, isLess⟩
        rcases List.mem_cons.mp inRight with same | laterRight
        · rcases List.mem_cons.mp inLeft with also | laterLeft
          · rw [also, same] at isLess
            exact absurd isLess (asymm _ _ isLess)
          · rw [same] at isLess
            exact absurd isLess (asymm _ _ (ahead left laterLeft))
        · rcases List.mem_cons.mp inLeft with same | laterLeft
          · exact .inl (List.mem_map.mpr ⟨right, laterRight, by rw [same]⟩)
          · exact .inr ⟨laterLeft, laterRight, isLess⟩

/-- The prefix of the pairs that are twins is what the search returns exactly when
no pair with a NaN is among the best: each is outranked by twins for all slots. -/
theorem findTwinsWhere_prefix_iff (fits : (present vectors).length ≤ options.maxTwinVectors) :
    (findTwinsWhere cosine vectors options keep).pairs =
        (((keptPairs cosine vectors keep).filter options.isTwin).insertionSort
          TwinPair.Before).take options.maxTwinPairs ↔
      ∀ pair ∈ keptPairs cosine vectors keep,
        (pair.cosine.isNan = true ∨ options.twinThreshold.isNan = true) →
        options.maxTwinPairs ≤ (((keptPairs cosine vectors keep).filter options.isTwin).filter
          fun other => other.Before pair).length := by
  have within : ∀ pair : TwinPair, options.isTwin pair = true →
      (!pair.cosine.lt options.twinThreshold) = true := by
    intro pair twin
    rw [Bool.not_eq_true', Binary.lt_eq_false_iff]
    exact .inr (.inr twin)
  have stray (pair : TwinPair) : ((!pair.cosine.lt options.twinThreshold) = true ∧
      options.isTwin pair = false) ↔
        (pair.cosine.isNan = true ∨ options.twinThreshold.isNan = true) := by
    rw [Bool.not_eq_true', Binary.lt_eq_false_iff, SweepOptions.isTwin, Binary.le]
    cases pair.cosine.isNan <;> cases options.twinThreshold.isNan <;> simp
  rw [findTwinsWhere_pairs fits, take_insertionSort_filter_eq_iff within]
  constructor
  · intro enough pair member nan
    obtain ⟨passes, isNoTwin⟩ := (stray pair).mpr nan
    exact enough pair member passes isNoTwin
  · intro enough pair member passes isNoTwin
    exact enough pair member ((stray pair).mp ⟨passes, isNoTwin⟩)

end Prefix

namespace Corrupt

def one : F64 := numberOne

def nan : F64 := quietNan

/-- The cosine of vectors with one component, both of one direction. -/
def cosine (left right : List F64) : F64 :=
  if left.any Binary.isNan || right.any Binary.isNan then nan else one

def options : SweepOptions := ⟨one, 0, 0, 0, 0, 0, 0, one, 10, 5⟩

end Corrupt

/-- Two vectors without a NaN. -/
theorem findTwinsWhere_prefix_iff_two :
    (findTwinsWhere Corrupt.cosine [some [Corrupt.one], none, some [Corrupt.one]]
        Corrupt.options fun _ _ => true).pairs =
        (((keptPairs Corrupt.cosine [some [Corrupt.one], none, some [Corrupt.one]]
          fun _ _ => true).filter Corrupt.options.isTwin).insertionSort
          TwinPair.Before).take 5 ↔
      ∀ pair ∈ keptPairs Corrupt.cosine [some [Corrupt.one], none, some [Corrupt.one]]
          fun _ _ => true,
        (pair.cosine.isNan = true ∨ Corrupt.one.isNan = true) →
        5 ≤ (((keptPairs Corrupt.cosine [some [Corrupt.one], none, some [Corrupt.one]]
          fun _ _ => true).filter Corrupt.options.isTwin).filter
          fun other => other.Before pair).length :=
  findTwinsWhere_prefix_iff (by decide)

/-- A vector with a NaN component is reported as a twin. -/
theorem nan_makes_a_pair :
    (findTwinsWhere Corrupt.cosine [some [Corrupt.nan], some [Corrupt.one]] Corrupt.options
        fun _ _ => true).pairs ≠
      (((keptPairs Corrupt.cosine [some [Corrupt.nan], some [Corrupt.one]]
        fun _ _ => true).filter Corrupt.options.isTwin).insertionSort TwinPair.Before).take 5 := by
  decide

end Crystalline.Sweep
