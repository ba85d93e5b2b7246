import Crystalline.Sweep.Dedupe

/-!
# Clusters as connected components

The clusters are the classes of two or more bodies under the verified candidate pairs,
and two bodies with one normalized text share a bucket of every band.
-/

namespace Crystalline.Sweep

open Keyed Merging Ranking Text

section Indices

variable {α : Type*} {holds : α × Nat → Bool} {list : List α}

/-- The indices of the entries that a test holds of. -/
def indicesWhere (holds : α × Nat → Bool) (list : List α) : List Nat :=
  (list.zipIdx.filter holds).map Prod.snd

theorem pairwise_indicesWhere : (indicesWhere holds list).Pairwise (· < ·) := by
  have indices : (list.zipIdx.map Prod.snd).Pairwise (· < ·) := by
    rw [List.zipIdx_map_snd]
    exact List.pairwise_lt_range'
  exact indices.sublist (List.filter_sublist.map Prod.snd)

theorem mem_indicesWhere {index : Nat} :
    index ∈ indicesWhere holds list ↔
      ∃ item, list[index]? = some item ∧ holds (item, index) = true := by
  rw [indicesWhere, List.mem_map]
  constructor
  · rintro ⟨⟨item, place⟩, member, rfl⟩
    obtain ⟨inside, held⟩ := List.mem_filter.mp member
    exact ⟨item, List.mem_zipIdx_iff_getElem?.mp inside, held⟩
  · rintro ⟨item, found, held⟩
    exact ⟨(item, index), List.mem_filter.mpr ⟨List.mem_zipIdx_iff_getElem?.mpr found, held⟩, rfl⟩

end Indices

theorem itemsOf_flatMap {κ α β : Type*} [LinearOrder κ] (key : κ) (entries : β → List (κ × α))
    (list : List β) :
    itemsOf key (list.flatMap entries) = list.flatMap fun item => itemsOf key (entries item) := by
  induction list with
  | nil => rfl
  | cons item list induction =>
      rw [List.flatMap_cons, List.flatMap_cons, itemsOf_append, induction]

theorem itemsOf_map_key {κ α : Type*} [LinearOrder κ] {keys : List κ} (distinct : keys.Nodup)
    (key : κ) (item : α) :
    itemsOf key (keys.map fun key => (key, item)) = if key ∈ keys then [item] else [] := by
  induction keys with
  | nil => rfl
  | cons first keys induction =>
      obtain ⟨apart, distinct⟩ := List.nodup_cons.mp distinct
      have later := induction distinct
      rw [itemsOf] at later ⊢
      by_cases same : first = key
      · rw [same] at apart ⊢
        rw [if_neg apart] at later
        simp [later]
      · simpa [same, Ne.symm same] using later

theorem flatMap_eq_indicesWhere {α : Type*} (holds : α × Nat → Bool) (list : List α) :
    (list.zipIdx.flatMap fun entry => if holds entry then [entry.2] else []) =
      indicesWhere holds list := by
  rw [indicesWhere]
  induction list.zipIdx with
  | nil => rfl
  | cons entry entries induction =>
      rw [List.flatMap_cons, List.filter_cons, induction]
      split <;> rfl

variable {options : SweepOptions}

theorem nodup_bandKeys (signature : List UInt64) : (bandKeys options signature).Nodup := by
  have bands : ((List.range options.minhashBands).takeWhile fun band =>
      band * options.minhashRows < signature.length).Nodup :=
    List.nodup_range.sublist (List.takeWhile_sublist _)
  apply bands.map_on
  intro band _ other _ same
  exact (Prod.mk.inj (toLex.injective same)).1

theorem bandKeys_ne_nil {signature : List UInt64} (bands : 1 ≤ options.minhashBands)
    (present : signature ≠ []) : bandKeys options signature ≠ [] := by
  obtain ⟨more, same⟩ : ∃ more, options.minhashBands = more + 1 :=
    ⟨options.minhashBands - 1, by omega⟩
  have positive := List.length_pos_of_ne_nil present
  rw [bandKeys, same, List.range_succ_eq_map]
  simp [positive]

/-- A signature falls into a bucket. -/
def fallsInto (options : SweepOptions) (key : Nat ×ₗ Nat)
    (entry : Option (List UInt64) × Nat) : Bool :=
  entry.1.any fun signature => key ∈ bandKeys options signature

theorem itemsOf_bandEntries (key : Nat ×ₗ Nat) (entry : Option (List UInt64) × Nat) :
    itemsOf key (bandEntries options entry) =
      if fallsInto options key entry then [entry.2] else [] := by
  obtain ⟨signature, index⟩ := entry
  cases signature with
  | none => rfl
  | some signature =>
      rw [bandEntries, fallsInto]
      dsimp only [Option.any]
      rw [itemsOf_map_key (nodup_bandKeys signature)]
      by_cases inside : key ∈ bandKeys options signature
      · rw [if_pos inside, if_pos (decide_eq_true inside)]
      · rw [if_neg inside, if_neg (by simpa using inside)]

variable {members : List Nat} {normalized : List (Option Text)}

theorem mem_bandBuckets {signatures : List (Option (List UInt64))} {key : Nat ×ₗ Nat} :
    (key, members) ∈ bandBuckets signatures options ↔
      members = indicesWhere (fallsInto options key) signatures ∧ members ≠ [] := by
  rw [bandBuckets, (grouping_grouped _).holds, itemsOf_flatMap]
  simp only [itemsOf_bandEntries]
  rw [flatMap_eq_indicesWhere]

theorem mem_bucketPairs (ascending : members.Pairwise (· < ·)) {pair : Nat × Nat} :
    pair ∈ bucketPairs members ↔ pair.1 ∈ members ∧ pair.2 ∈ members ∧ pair.1 < pair.2 := by
  have less {left right : Nat} :
      (left, right) ∈ pairsOf members ↔ left ∈ members ∧ right ∈ members ∧ left < right :=
    mem_pairsOf ascending fun _ _ less more => absurd less (Nat.lt_asymm more)
  rw [bucketPairs, List.mem_map]
  constructor
  · rintro ⟨⟨left, right⟩, member, rfl⟩
    have held := less.mp member
    rwa [if_pos held.2.2]
  · intro held
    exact ⟨pair, less.mpr held, if_pos held.2.2⟩

/-- A text is kept for an index. -/
def HasText (normalized : List (Option Text)) (index : Nat) : Prop :=
  ∃ text, normalized[index]? = some (some text)

/-- A verified candidate pair. -/
def Verified (normalized : List (Option Text)) (options : SweepOptions) (x y : Nat) : Prop :=
  (x, y) ∈ (candidatesOf normalized options).pairs ∧ accepts normalized options (x, y) = true

theorem join_eq_some {index : Nat} {text : Text} :
    normalized[index]?.join = some text ↔ normalized[index]? = some (some text) :=
  Option.join_eq_some_iff

theorem Verified.hasText {x y : Nat} (verified : Verified normalized options x y) :
    HasText normalized x ∧ HasText normalized y := by
  have accepted := verified.2
  rw [accepts] at accepted
  split at accepted
  next left right isLeft isRight =>
    exact ⟨⟨left, join_eq_some.mp isLeft⟩, right, join_eq_some.mp isRight⟩
  · cases accepted

theorem hasText_of_eqvGen {x y : Nat}
    (related : Relation.EqvGen (Verified normalized options) x y) :
    x = y ∨ (HasText normalized x ∧ HasText normalized y) := by
  induction related with
  | rel x y verified => exact .inr verified.hasText
  | refl x => exact .inl rfl
  | symm x y _ induction => exact induction.imp Eq.symm And.symm
  | trans x y z _ _ first second =>
      rcases first with rfl | first
      · exact second
      rcases second with rfl | second
      · exact .inr first
      · exact .inr ⟨first.1, second.2⟩

theorem mergePairs_classes (normalized : List (Option Text)) (options : SweepOptions) :
    (mergePairs normalized options (candidatesOf normalized options).pairs).Classes
      (Verified normalized options) := by
  have united := UnionFind.new_classes.foldl_union
    ((candidatesOf normalized options).pairs.filter (accepts normalized options))
  rw [List.foldl_filter] at united
  have same : Verified normalized options = fun x y => False ∨
      (x, y) ∈ (candidatesOf normalized options).pairs.filter (accepts normalized options) := by
    funext x y
    rw [false_or, List.mem_filter]
    rfl
  rw [same]
  exact united

/-- The index is kept under its root. -/
def rooted (root : Nat → Nat) (entry : Option Text × Nat) : List (Nat × Nat) :=
  if entry.1.isSome then [(root entry.2, entry.2)] else []

theorem gather_eq (entries : List (Option Text × Nat)) (forest : UnionFind)
    (groups : List (Nat × List Nat)) :
    gather entries forest groups =
      (entries.flatMap (rooted forest.root)).foldl
        (fun groups entry => push entry.1 entry.2 groups) groups := by
  induction entries generalizing forest groups with
  | nil => rfl
  | cons entry entries induction =>
      obtain ⟨text, index⟩ := entry
      cases text with
      | none => exact induction forest groups
      | some text =>
          have kept : (forest.find index).1.root = forest.root :=
            funext fun other => UnionFind.root_find forest index other
          rw [gather, induction, UnionFind.find_snd, kept]
          rfl

/-- An index with a text and a root. -/
def hasRoot (root : Nat → Nat) (key : Nat) (entry : Option Text × Nat) : Bool :=
  entry.1.isSome && root entry.2 == key

theorem itemsOf_rooted (root : Nat → Nat) (key : Nat) (entry : Option Text × Nat) :
    itemsOf key (rooted root entry) = if hasRoot root key entry then [entry.2] else [] := by
  obtain ⟨text, index⟩ := entry
  cases text with
  | none => rfl
  | some text => by_cases same : root index = key <;> simp [rooted, hasRoot, itemsOf, same]

variable {forest : UnionFind}

theorem mem_gather {key : Nat} :
    (key, members) ∈ gather normalized.zipIdx forest [] ↔
      members = indicesWhere (hasRoot forest.root key) normalized ∧ members ≠ [] := by
  rw [gather_eq, ← grouped, (grouping_grouped _).holds, itemsOf_flatMap]
  simp only [itemsOf_rooted]
  rw [flatMap_eq_indicesWhere]

theorem mem_hasRoot {key index : Nat} :
    index ∈ indicesWhere (hasRoot forest.root key) normalized ↔
      HasText normalized index ∧ forest.root index = key := by
  rw [mem_indicesWhere]
  constructor
  · rintro ⟨text, found, held⟩
    obtain ⟨present, same⟩ := Bool.and_eq_true_iff.mp held
    obtain ⟨text, rfl⟩ := Option.isSome_iff_exists.mp present
    exact ⟨⟨text, found⟩, beq_iff_eq.mp same⟩
  · rintro ⟨⟨text, found⟩, same⟩
    exact ⟨some text, found, Bool.and_eq_true_iff.mpr ⟨rfl, beq_iff_eq.mpr same⟩⟩

section Clustered

variable (isAlphanumeric : Char → Bool) (bodies : List Text)

/-- The buckets the bodies fall into. -/
def bucketsOf (options : SweepOptions) : List (List Nat) :=
  let normalized := normalizedBodies isAlphanumeric bodies options
  (bandBuckets (signaturesOf normalized options) options).map Prod.snd

/-- The normalized text of a body. -/
def textOf (index : Nat) : Option Text := bodies[index]?.map (normalize isAlphanumeric)

/-- What the clusters of a list of bodies are. -/
structure Clustered (options : SweepOptions) (out : DuplicateClusters) : Prop where
  components : ∀ cluster : List Nat, cluster ∈ out.clusters ↔
    cluster.Pairwise (· < ·) ∧ 2 ≤ cluster.length ∧
      ∃ x, ∀ y, y ∈ cluster ↔
        Relation.EqvGen (Verified (normalizedBodies isAlphanumeric bodies options) options) x y
  disjoint : out.clusters.Pairwise List.Disjoint
  ordered : out.clusters.Pairwise fun first second =>
    ∀ x ∈ first.head?, ∀ y ∈ second.head?, x < y
  together : ∀ (i j : Nat) (text : Text), i ≠ j →
    textOf isAlphanumeric bodies i = some text → textOf isAlphanumeric bodies j = some text →
    options.minDupBodyChars ≤ text.length → text.length ≤ 2 ^ 31 →
    shingleWords ≤ (wordsOf text).length → 1 ≤ options.minhashHashes →
    1 ≤ options.minhashBands → 1 ≤ options.minhashRows →
    options.dupThreshold.le (Binary.ofNat 1) = true →
    out.skippedBuckets = 0 → out.capped = false →
    ∃ cluster ∈ out.clusters, i ∈ cluster ∧ j ∈ cluster
  candidates : ∀ pair,
    pair ∈ (candidatesOf (normalizedBodies isAlphanumeric bodies options) options).pairs →
      pair ∈ blockedPairs options (bucketsOf isAlphanumeric bodies options)
  complete : out.capped = false →
    ∀ pair ∈ blockedPairs options (bucketsOf isAlphanumeric bodies options),
      pair ∈ (candidatesOf (normalizedBodies isAlphanumeric bodies options) options).pairs
  capped : out.capped = true ↔ max options.maxCandidatePairs 1 ≤
    (blockedPairs options (bucketsOf isAlphanumeric bodies options)).dedup.length

variable {isAlphanumeric bodies} {normalized : List (Option Text)} {forest : UnionFind}

theorem pairwise_gather : (gather normalized.zipIdx forest []).Pairwise
    fun first second => first.2.Disjoint second.2 := by
  have ascending : (gather normalized.zipIdx forest []).Pairwise
      fun first second => first.1 < second.1 := by
    rw [gather_eq]
    exact (grouping_grouped _).ascending
  refine ascending.imp_of_mem ?_
  rintro ⟨key, members⟩ ⟨other, others⟩ first second less index inFirst inSecond
  obtain ⟨rfl, -⟩ := mem_gather.mp first
  obtain ⟨rfl, -⟩ := mem_gather.mp second
  exact less.ne ((mem_hasRoot.mp inFirst).2.symm.trans (mem_hasRoot.mp inSecond).2)

/-- The groups of two or more are the classes of two or more. -/
theorem mem_groups_iff (classes : forest.Classes (Verified normalized options))
    (cluster : List Nat) :
    cluster ∈ ((gather normalized.zipIdx forest []).map Prod.snd).filter (2 ≤ ·.length) ↔
      cluster.Pairwise (· < ·) ∧ 2 ≤ cluster.length ∧
        ∃ x, ∀ y, y ∈ cluster ↔ Relation.EqvGen (Verified normalized options) x y := by
  have texts {x y : Nat} (related : Relation.EqvGen (Verified normalized options) x y)
      (hasText : HasText normalized x) : HasText normalized y := by
    rcases hasText_of_eqvGen related with rfl | both
    · exact hasText
    · exact both.2
  rw [List.mem_filter, List.mem_map, decide_eq_true_eq]
  constructor
  · rintro ⟨⟨⟨key, members⟩, member, rfl⟩, long⟩
    obtain ⟨rfl, present⟩ := mem_gather.mp member
    obtain ⟨x, inside⟩ := List.exists_mem_of_ne_nil _ present
    obtain ⟨hasText, isRoot⟩ := mem_hasRoot.mp inside
    refine ⟨pairwise_indicesWhere, long, x, fun y => ?_⟩
    rw [mem_hasRoot, ← isRoot, ← classes x y, eq_comm]
    constructor
    · exact And.right
    · intro same
      exact ⟨texts ((classes x y).mp same) hasText, same⟩
  · rintro ⟨ascending, long, x, members⟩
    have hasText : HasText normalized x := by
      -- one of the two members is another index than the class is named by
      match cluster, long with
      | first :: second :: _, _ =>
          have less := (List.pairwise_cons.mp ascending).1 second List.mem_cons_self
          rcases hasText_of_eqvGen ((members first).mp List.mem_cons_self) with rfl | both
          · rcases hasText_of_eqvGen
              ((members second).mp (List.mem_cons_of_mem _ List.mem_cons_self)) with same | both
            · exact absurd same less.ne
            · exact both.1
          · exact both.1
    have same : cluster = indicesWhere (hasRoot forest.root (forest.root x)) normalized := by
      refine ((List.perm_ext_iff_of_nodup ?_ ?_).mpr fun y => ?_).eq_of_pairwise ?_ ascending
        pairwise_indicesWhere
      · exact ascending.imp Nat.ne_of_lt
      · exact pairwise_indicesWhere.imp Nat.ne_of_lt
      · rw [members, mem_hasRoot, ← classes x y, eq_comm]
        constructor
        · intro same
          exact ⟨texts ((classes x y).mp same.symm) hasText, same⟩
        · exact And.right
      · intro a b _ _ less more
        omega
    refine ⟨⟨(forest.root x, cluster), mem_gather.mpr ⟨same, ?_⟩, rfl⟩, long⟩
    exact List.ne_nil_of_length_pos (by omega)

theorem pairwise_heads {clusters : List (List Nat)} (disjoint : clusters.Pairwise List.Disjoint)
    (ordered : clusters.Pairwise (· ≤ ·)) :
    clusters.Pairwise fun first second => ∀ x ∈ first.head?, ∀ y ∈ second.head?, x < y := by
  refine (disjoint.and ordered).imp ?_
  rintro first second ⟨apart, least⟩ x isHead y isHead'
  obtain ⟨first, rfl⟩ := List.head?_eq_some_iff.mp isHead
  obtain ⟨second, rfl⟩ := List.head?_eq_some_iff.mp isHead'
  have different : x ≠ y := by
    rintro rfl
    exact apart List.mem_cons_self List.mem_cons_self
  by_contra notLess
  have before : y :: second < x :: first := List.Lex.rel (by omega)
  exact not_lt.mpr least before

variable {text : Text} {i j : Nat}

theorem exists_minhash {hashes : Nat} (words : shingleWords ≤ (wordsOf text).length)
    (positive : 1 ≤ hashes) : ∃ signature, minhash text hashes = some signature ∧
      signature ≠ [] := by
  have length (shingles : List (List Text)) (signature : List UInt64) :
      (shingles.foldl
        (fun signature shingle =>
          let base := shingleHash shingle
          signature.mapIdx fun i slot =>
            let hash := mix (base ^^^ mix (UInt64.ofNat i + 1))
            if hash < slot then hash else slot)
        signature).length = signature.length := by
    induction shingles generalizing signature with
    | nil => rfl
    | cons shingle shingles induction => rw [List.foldl_cons, induction, List.length_mapIdx]
  refine ⟨_, if_neg ?_, ?_⟩
  · simp only [Bool.or_eq_true, decide_eq_true_eq, beq_iff_eq]
    omega
  · apply List.ne_nil_of_length_pos
    rw [length, List.length_replicate]
    exact positive

theorem getElem?_normalizedBodies {index : Nat}
    (isText : textOf isAlphanumeric bodies index = some text)
    (long : options.minDupBodyChars ≤ text.length) :
    (normalizedBodies isAlphanumeric bodies options)[index]? = some (some text) := by
  obtain ⟨body, found, rfl⟩ := Option.map_eq_some_iff.mp isText
  rw [normalizedBodies, List.getElem?_map, found, Option.map_some, if_neg (Nat.not_lt.mpr long)]

theorem exists_bucket (left : normalized[i]? = some (some text))
    (right : normalized[j]? = some (some text)) (words : shingleWords ≤ (wordsOf text).length)
    (hashes : 1 ≤ options.minhashHashes) (bands : 1 ≤ options.minhashBands) :
    ∃ members ∈ (bandBuckets (signaturesOf normalized options) options).map Prod.snd,
      members.Pairwise (· < ·) ∧ i ∈ members ∧ j ∈ members := by
  obtain ⟨signature, isMinhash, present⟩ := exists_minhash words hashes
  obtain ⟨key, first⟩ := List.exists_mem_of_ne_nil _ (bandKeys_ne_nil bands present)
  have inside {index : Nat} (found : normalized[index]? = some (some text)) :
      index ∈ indicesWhere (fallsInto options key) (signaturesOf normalized options) := by
    apply mem_indicesWhere.mpr
    refine ⟨some signature, ?_, decide_eq_true first⟩
    rw [signaturesOf, List.getElem?_map, found, Option.map_some, Option.bind_some, isMinhash]
  refine ⟨_, List.mem_map.mpr ⟨(key, _), mem_bandBuckets.mpr ⟨rfl, ?_⟩, rfl⟩,
    pairwise_indicesWhere, inside left, inside right⟩
  exact List.ne_nil_of_mem (inside left)

variable {members : List Nat}

theorem mem_blockedPairs {buckets : List (List Nat)} (bucket : members ∈ buckets)
    (fits : members.length ≤ options.maxBucket) (ascending : members.Pairwise (· < ·))
    (first : i ∈ members) (second : j ∈ members) (less : i < j) :
    (i, j) ∈ blockedPairs options buckets := by
  apply List.mem_flatMap.mpr
  refine ⟨members, bucket, ?_⟩
  rw [if_neg (Nat.not_lt.mpr fits)]
  exact (mem_bucketPairs ascending).mpr ⟨first, second, less⟩

theorem two_le_length (first : i ∈ members) (second : j ∈ members) (different : i ≠ j) :
    2 ≤ members.length := by
  match members with
  | [] => cases first
  | [only] =>
      exact absurd ((List.mem_singleton.mp first).trans (List.mem_singleton.mp second).symm)
        different
  | _ :: _ :: _ => simp

theorem exists_group (classes : forest.Classes (Verified normalized options)) (different : i ≠ j)
    (left : HasText normalized i) (right : HasText normalized j)
    (related : Relation.EqvGen (Verified normalized options) i j) :
    ∃ cluster ∈ ((gather normalized.zipIdx forest []).map Prod.snd).filter (2 ≤ ·.length),
      i ∈ cluster ∧ j ∈ cluster := by
  have first : i ∈ indicesWhere (hasRoot forest.root (forest.root i)) normalized :=
    mem_hasRoot.mpr ⟨left, rfl⟩
  have second : j ∈ indicesWhere (hasRoot forest.root (forest.root i)) normalized :=
    mem_hasRoot.mpr ⟨right, ((classes i j).mpr related).symm⟩
  refine ⟨_, List.mem_filter.mpr ⟨List.mem_map.mpr ⟨(forest.root i, _), ?_, rfl⟩, ?_⟩, first,
    second⟩
  · exact mem_gather.mpr ⟨rfl, List.ne_nil_of_mem first⟩
  · exact decide_eq_true (two_le_length first second different)

/-- Two bodies with one normalized text are a verified pair, unless something is cut. -/
theorem verified_copies (less : i < j) (left : normalized[i]? = some (some text))
    (right : normalized[j]? = some (some text)) (fits : text.length ≤ 2 ^ 31)
    (words : shingleWords ≤ (wordsOf text).length) (hashes : 1 ≤ options.minhashHashes)
    (bands : 1 ≤ options.minhashBands) (threshold : options.dupThreshold.le (Binary.ofNat 1) = true)
    (noneSkipped : (candidatesOf normalized options).skippedBuckets = 0)
    (notCapped : (candidatesOf normalized options).capped = false) :
    Verified normalized options i j := by
  obtain ⟨members, bucket, ascending, first, second⟩ := exists_bucket left right words hashes bands
  have small := length_le_of_none_skipped notCapped noneSkipped members bucket
    (two_le_length first second less.ne)
  have inserted := inserted_insertPairs options.maxCandidatePairs (blockedPairs options
    ((bandBuckets (signaturesOf normalized options) options).map Prod.snd)) []
  obtain ⟨pairs, capped⟩ := expandBuckets_inserts options
    ((bandBuckets (signaturesOf normalized options) options).map Prod.snd)
    (show (⟨[], 0, false⟩ : Candidates).capped = false from rfl)
  constructor
  · rw [candidatesOf, candidatePairs, pairs]
    rw [candidatesOf, candidatePairs, capped] at notCapped
    exact inserted.complete notCapped _
      (.inl (mem_blockedPairs bucket small ascending first second less))
  · have long : shingleWords ≤ text.length := words.trans (length_pieces_le text)
    rw [shingleWords] at long
    rw [accepts, join_eq_some.mpr left, join_eq_some.mpr right]
    dsimp only
    rw [nearDuplicate_self (by omega) fits threshold]
    rfl

variable (isAlphanumeric bodies) in
/-- The clusters are the components of the verified pairs, copies are in one unless
something was cut, and a cut of the pairs is reported. -/
theorem clusterNearDuplicates_clustered (options : SweepOptions) :
    Clustered isAlphanumeric bodies options
      (clusterNearDuplicates isAlphanumeric bodies options) := by
  have classes := mergePairs_classes (normalizedBodies isAlphanumeric bodies options) options
  have components : ∀ cluster : List Nat,
      cluster ∈ (clusterNearDuplicates isAlphanumeric bodies options).clusters ↔
        cluster.Pairwise (· < ·) ∧ 2 ≤ cluster.length ∧
          ∃ x, ∀ y, y ∈ cluster ↔ Relation.EqvGen
            (Verified (normalizedBodies isAlphanumeric bodies options) options) x y :=
    fun cluster => (List.mem_insertionSort (· ≤ ·)).trans (mem_groups_iff classes cluster)
  have disjoint : (clusterNearDuplicates isAlphanumeric bodies options).clusters.Pairwise
      List.Disjoint := by
    refine ((List.perm_insertionSort (· ≤ ·) _).pairwise_iff fun apart => ?_).mpr ?_
    · exact List.disjoint_symm apart
    · exact (List.pairwise_map.mpr pairwise_gather).sublist List.filter_sublist
  have inserted := inserted_insertPairs options.maxCandidatePairs
    (blockedPairs options (bucketsOf isAlphanumeric bodies options)) []
  -- the buckets are expanded as one list of pairs
  obtain ⟨pairs, capped⟩ : (candidatesOf (normalizedBodies isAlphanumeric bodies options)
        options).pairs = (insertPairs options.maxCandidatePairs
          (blockedPairs options (bucketsOf isAlphanumeric bodies options)) []).1 ∧
      (clusterNearDuplicates isAlphanumeric bodies options).capped =
        (insertPairs options.maxCandidatePairs
          (blockedPairs options (bucketsOf isAlphanumeric bodies options)) []).2 :=
    expandBuckets_inserts options _ rfl
  refine ⟨components, disjoint,
    pairwise_heads disjoint (List.pairwise_insertionSort (· ≤ ·) _), ?_, ?_, ?_, ?_⟩
  · intro i j text different left right long fits words hashes bands _ threshold noneSkipped
      notCapped
    have first := getElem?_normalizedBodies left long
    have second := getElem?_normalizedBodies right long
    have related : Relation.EqvGen
        (Verified (normalizedBodies isAlphanumeric bodies options) options) i j := by
      rcases Nat.lt_or_gt_of_ne different with less | more
      · exact .rel _ _ (verified_copies less first second fits words hashes bands threshold
          noneSkipped notCapped)
      · exact .symm _ _ (.rel _ _ (verified_copies more second first fits words hashes bands
          threshold noneSkipped notCapped))
    obtain ⟨cluster, member, inside⟩ := exists_group classes different ⟨text, first⟩ ⟨text, second⟩
      related
    exact ⟨cluster, (List.mem_insertionSort (· ≤ ·)).mpr member, inside⟩
  · intro pair member
    rw [pairs] at member
    exact (inserted.sound pair member).resolve_right List.not_mem_nil
  · intro notCapped pair member
    rw [capped] at notCapped
    rw [pairs]
    exact inserted.complete notCapped pair (.inl member)
  · rw [capped]
    exact inserted.capped_iff

end Clustered

/-- Options with one hash, one band and one row. -/
def oneBand (dupThreshold : F64) (cap : Nat) : SweepOptions where
  dupThreshold := dupThreshold
  minDupBodyChars := 5
  maxBucket := 8
  maxCandidatePairs := cap
  minhashHashes := 1
  minhashBands := 1
  minhashRows := 1
  twinThreshold := Binary.ofNat 1
  maxTwinVectors := 0
  maxTwinPairs := 0

def twoCopies : List Text := ["a b c".toList, "A, b; C".toList]

/-- A threshold above a full score keeps copies apart with nothing reported, and a cap
that the last pair reaches is reported with nothing left out. -/
theorem copies_apart_and_cap_without_cut :
    textOf isAsciiAlphanumeric twoCopies 0 = some "a b c".toList ∧
      textOf isAsciiAlphanumeric twoCopies 1 = some "a b c".toList ∧
      (wordsOf "a b c".toList).length = shingleWords ∧
      clusterNearDuplicates isAsciiAlphanumeric twoCopies (oneBand (Binary.ofNat 2) 8) =
        ⟨[], 1, 0, false⟩ ∧
      clusterNearDuplicates isAsciiAlphanumeric twoCopies (oneBand (Binary.ofNat 1) 1) =
        ⟨[[0, 1]], 1, 0, true⟩ ∧
      (candidatesOf (normalizedBodies isAsciiAlphanumeric twoCopies
          (oneBand (Binary.ofNat 1) 1)) (oneBand (Binary.ofNat 1) 1)).pairs =
        blockedPairs (oneBand (Binary.ofNat 1) 1)
          (bucketsOf isAsciiAlphanumeric twoCopies (oneBand (Binary.ofNat 1) 1)) := by
  decide +kernel

end Crystalline.Sweep
