import Crystalline.Ranking.Rounding
import Crystalline.Text.Pieces
import Mathlib.Data.List.AList
import Crystalline.Keyed.Groups
import Crystalline.Merging.UnionFind
import Crystalline.Sweep.Twins
import Crystalline.Text.Bytes
import Mathlib.Data.List.Dedup
import Mathlib.Data.List.Lex
import Mathlib.Data.Prod.Lex

/-!
# Near-duplicate clusters

Bodies are cut into bands of a MinHash signature, two bodies that share a band become
a candidate pair, and the pairs that are near-duplicates are merged into clusters.
-/

namespace Crystalline.Sweep

open Ranking Text Keyed Merging

section

/-- `normalize`: lower-case letters and digits, in words with one space between. -/
def normalize (isAlphanumeric : Char → Bool) (text : Text) : Text :=
  let filtered := text.map fun char =>
    let char := char.toLower
    if isAlphanumeric char || isWhitespace char then char else ' '
  [' '].intercalate (splitWhitespace filtered)

/-- `windows(2)`. -/
def adjacent {α : Type*} (items : List α) : List (α × α) := items.zip items.tail

section Dice

variable {κ : Type*} [DecidableEq κ]

/-- Counts under keys, in 32 bits. -/
abbrev Counts (κ : Type*) : Type _ := AList fun _ : κ => Int32

/-- `*counts.entry(key).or_insert(0) += 1`. -/
def Counts.bump (counts : Counts κ) (key : κ) : Counts κ :=
  counts.insert key ((counts.lookup key).getD 0 + 1)

/-- How often each key occurs. -/
def tally (keys : List κ) : Counts κ := keys.foldl Counts.bump ∅

/-- The keys that are still left in the counts. -/
def intersection : Counts κ → List κ → Nat
  | _, [] => 0
  | counts, key :: keys =>
      match counts.lookup key with
      | none => intersection counts keys
      | some count =>
          if 0 < count then intersection (counts.insert key (count - 1)) keys + 1
          else intersection counts keys

/-- `2.0 * intersection as f64 / (left + right) as f64`. -/
def dice (left right : List κ) : F64 :=
  ((Binary.ofNat 2).mul (Binary.ofNat (intersection (tally left) right))).div
    (Binary.ofNat (left.length + right.length))

end Dice

/-- `bigrams`. -/
def bigrams (text : Text) : List (Char × Char) := adjacent text

/-- `dice_coefficient`. -/
def diceCoefficient (left right : Text) : F64 :=
  if (bigrams left).isEmpty || (bigrams right).isEmpty then Binary.ofNat 0
  else dice (bigrams left) (bigrams right)

/-- `word_bigram_dice`. -/
def wordBigramDice (left right : Text) : F64 :=
  let wordsOfLeft := splitWhitespace left
  let wordsOfRight := splitWhitespace right
  if wordsOfLeft.length < 2 || wordsOfRight.length < 2 then
    if wordsOfLeft = wordsOfRight then Binary.ofNat 1 else Binary.ofNat 0
  else dice (adjacent wordsOfLeft) (adjacent wordsOfRight)

def wordBigramFloor : F64 := Binary.ofRatio 1 2

def wordGateMinWords : Nat := 5

def wordGateMaxMeanLen : Nat := 10

def wordGateMaxCjkShare : F64 := Binary.ofRatio 3 10

/-- `is_cjk`. -/
def isCjk (char : Char) : Bool :=
  [(0x4E00, 0x9FFF), (0x3400, 0x4DBF), (0xF900, 0xFAFF), (0x3040, 0x309F), (0x30A0, 0x30FF),
    (0x31F0, 0x31FF), (0xAC00, 0xD7AF), (0x1100, 0x11FF), (0x3130, 0x318F)].any
    fun range => range.1 ≤ char.toNat && char.toNat ≤ range.2

/-- `word_gate_applies`. -/
def wordGateApplies (text : Text) : Bool :=
  let words := splitWhitespace text
  let chars := words.flatten
  let cjk := chars.countP isCjk
  wordGateMinWords ≤ words.length && chars.length ≤ wordGateMaxMeanLen * words.length &&
    (Binary.ofNat cjk).le (wordGateMaxCjkShare.mul (Binary.ofNat chars.length))

/-- `near_duplicate`. -/
def nearDuplicate (left right : Text) (charThreshold : F64) : Option F64 :=
  let chars := diceCoefficient left right
  let wordsAgree := !(wordGateApplies left && wordGateApplies right) ||
    wordBigramFloor.le (wordBigramDice left right)
  if charThreshold.le chars && wordsAgree then some chars else none

section Dice

variable {κ : Type*} [DecidableEq κ]

/-- A count, of a key that may be absent. -/
def Counts.countOf (counts : Counts κ) (key : κ) : Int32 := (counts.lookup key).getD 0

theorem countOf_insert_self (counts : Counts κ) (key : κ) (count : Int32) :
    Counts.countOf (counts.insert key count) key = count := by
  rw [Counts.countOf, AList.lookup_insert]
  rfl

theorem countOf_insert_of_ne {key other : κ} (different : key ≠ other) (counts : Counts κ)
    (count : Int32) : Counts.countOf (counts.insert other count) key = counts.countOf key := by
  rw [Counts.countOf, AList.lookup_insert_ne different]
  rfl

theorem countOf_tally (keys : List κ) (key : κ) :
    (tally keys).countOf key = Int32.ofNat (keys.count key) := by
  induction keys using List.reverseRecOn with
  | nil => rfl
  | append_singleton keys last induction =>
      rw [tally, List.foldl_append, List.count_append]
      by_cases same : key = last
      · rw [same] at induction ⊢
        rw [List.count_singleton_self, Int32.ofNat_add, ← induction]
        exact countOf_insert_self _ _ _
      · have absent : [last].count key = 0 :=
          List.count_eq_zero.mpr fun member => same (List.mem_singleton.mp member)
        rw [absent, Nat.add_zero, ← induction]
        exact countOf_insert_of_ne same _ _

/-- Counts that are no more than a 32-bit number are all found again. -/
theorem intersection_of_counts {counts : Counts κ} {keys : List κ} (fits : keys.length < 2 ^ 31)
    (counted : ∀ key, counts.countOf key = Int32.ofNat (keys.count key)) :
    intersection counts keys = keys.length := by
  induction keys generalizing counts with
  | nil => rw [intersection, List.length_nil]
  | cons first keys induction =>
      rw [List.length_cons] at fits
      have own : counts.countOf first = Int32.ofNat (keys.count first) + 1 := by
        rw [counted, List.count_cons_self, Int32.ofNat_add]
        rfl
      have left : 0 < counts.countOf first := by
        have atMost := List.count_le_length (a := first) (l := keys)
        rw [counted, List.count_cons_self, Int32.lt_iff_toInt_lt,
          Int32.toInt_ofNat_of_lt (by omega), Int32.toInt_zero]
        omega
      rw [intersection]
      cases looked : counts.lookup first with
      | none =>
          rw [Counts.countOf, looked] at left
          exact absurd left (by decide)
      | some count =>
          have same : counts.countOf first = count := by
            rw [Counts.countOf, looked]
            rfl
          rw [same] at own left
          dsimp only
          rw [if_pos left, List.length_cons]
          congr 1
          apply induction (by omega)
          intro key
          by_cases equal : key = first
          · rw [equal, countOf_insert_self, own, Int32.add_sub_cancel]
          · rw [countOf_insert_of_ne equal, counted, List.count_cons_of_ne (Ne.symm equal)]

end Dice

@[simp] theorem length_adjacent {α : Type*} (items : List α) :
    (adjacent items).length = items.length - 1 := by
  simp [adjacent]

theorem dice_self {κ : Type*} [DecidableEq κ] {keys : List κ} (present : keys ≠ [])
    (fits : keys.length < 2 ^ 31) : dice keys keys = Binary.ofNat 1 := by
  have positive := List.length_pos_of_ne_nil present
  have found := intersection_of_counts fits (countOf_tally keys)
  have once : keys.length < 2 ^ 53 := by omega
  have twice : 2 * keys.length < 2 ^ 53 := by omega
  rw [dice, found, Binary.ofNat_mul reaches_double (by decide) once, ← Nat.two_mul,
    Binary.ofNat_div_self reaches_double twice (by omega)]

variable {text : Text}

theorem diceCoefficient_self (long : 2 ≤ text.length) (fits : text.length ≤ 2 ^ 31) :
    diceCoefficient text text = Binary.ofNat 1 := by
  have length : (bigrams text).length = text.length - 1 := length_adjacent text
  have present : bigrams text ≠ [] := List.ne_nil_of_length_pos (by omega)
  rw [diceCoefficient, if_neg (by simp [present]), dice_self present (by omega)]

theorem wordBigramDice_self (fits : text.length ≤ 2 ^ 31) :
    wordBigramDice text text = Binary.ofNat 1 := by
  have words : (splitWhitespace text).length ≤ text.length := length_pieces_le text
  rw [wordBigramDice]
  split
  · rw [if_pos rfl]
  next long =>
    have many : 2 ≤ (splitWhitespace text).length := by
      rw [Bool.or_self, decide_eq_true_eq] at long
      exact Nat.not_lt.mp long
    have length := length_adjacent (splitWhitespace text)
    exact dice_self (List.ne_nil_of_length_pos (by omega)) (by omega)

theorem wordBigramFloor_le : wordBigramFloor.le (Binary.ofNat 1) = true := by decide +kernel

theorem nearDuplicate_self {charThreshold : F64} (long : 2 ≤ text.length)
    (fits : text.length ≤ 2 ^ 31) (reached : charThreshold.le (Binary.ofNat 1) = true) :
    nearDuplicate text text charThreshold = some (Binary.ofNat 1) := by
  rw [nearDuplicate, diceCoefficient_self long fits, wordBigramDice_self fits]
  simp [reached, wordBigramFloor_le]

end

structure DuplicateClusters where
  clusters : List (List Nat)
  candidatePairs : Nat
  skippedBuckets : Nat
  capped : Bool
  deriving DecidableEq

def shingleWords : Nat := 3

def fnvOffset : UInt64 := 0xcbf29ce484222325

def fnvPrime : UInt64 := 0x00000100000001b3

/-- The SplitMix64 finalizer. -/
def mix (x : UInt64) : UInt64 :=
  let x := (x ^^^ (x >>> 30)) * 0xbf58476d1ce4e5b9
  let x := (x ^^^ (x >>> 27)) * 0x94d049bb133111eb
  x ^^^ (x >>> 31)

/-- `shingle_hash`: FNV-1a over the words with a space between them. -/
def shingleHash (words : List Text) : UInt64 :=
  (bytes ([' '].intercalate words)).foldl
    (fun hash byte => (hash ^^^ byte.toUInt64) * fnvPrime) fnvOffset

/-- `windows(size)`. -/
def windows {α : Type*} (size : Nat) (items : List α) : List (List α) :=
  (items.tails.map (List.take size)).filter (·.length = size)

/-- The words of a normalized text. -/
def wordsOf (text : Text) : List Text := (splitMatches (· == ' ') text).filter (· ≠ [])

/-- `minhash`. -/
def minhash (text : Text) (hashes : Nat) : Option (List UInt64) :=
  let words := wordsOf text
  if words.length < shingleWords || hashes == 0 then none
  else
    some <| (windows shingleWords words).foldl
      (fun signature shingle =>
        let base := shingleHash shingle
        signature.mapIdx fun i slot =>
          let hash := mix (base ^^^ mix (UInt64.ofNat i + 1))
          if hash < slot then hash else slot)
      (List.replicate hashes (-1))

/-- `band_key`. -/
def bandKey (band : Nat) (values : List UInt64) : UInt64 :=
  values.foldl (fun hash value => mix (hash ^^^ value)) (mix (UInt64.ofNat band + 1))

/-- The buckets of one signature. -/
def bandKeys (options : SweepOptions) (signature : List UInt64) : List (Nat ×ₗ Nat) :=
  let bands := (List.range options.minhashBands).takeWhile fun band =>
    band * options.minhashRows < signature.length
  bands.map fun band =>
    let values := (signature.drop (band * options.minhashRows)).take options.minhashRows
    toLex (band, (bandKey band values).toNat)

/-- What one body adds to the buckets. -/
def bandEntries (options : SweepOptions) (entry : Option (List UInt64) × Nat) :
    List ((Nat ×ₗ Nat) × Nat) :=
  match entry.1 with
  | none => []
  | some signature => (bandKeys options signature).map fun key => (key, entry.2)

/-- `band_buckets`. -/
def bandBuckets (signatures : List (Option (List UInt64))) (options : SweepOptions) :
    List ((Nat ×ₗ Nat) × List Nat) :=
  grouped (signatures.zipIdx.flatMap (bandEntries options))

/-- The order of a set of pairs. -/
def PairLe (pair other : Nat × Nat) : Prop :=
  pair.1 < other.1 ∨ (pair.1 = other.1 ∧ pair.2 ≤ other.2)

instance : DecidableRel PairLe := fun _ _ => inferInstanceAs (Decidable (_ ∨ _))

def insertPair (pair : Nat × Nat) (pairs : List (Nat × Nat)) : List (Nat × Nat) :=
  if pair ∈ pairs then pairs else pairs.orderedInsert PairLe pair

/-- The pairs of one bucket, until the set is full. -/
def insertPairs (cap : Nat) : List (Nat × Nat) → List (Nat × Nat) → List (Nat × Nat) × Bool
  | [], pairs => (pairs, false)
  | pair :: rest, pairs =>
      if cap ≤ (insertPair pair pairs).length then (insertPair pair pairs, true)
      else insertPairs cap rest (insertPair pair pairs)

/-- The candidate pairs and what the caps cut. -/
structure Candidates where
  pairs : List (Nat × Nat)
  skippedBuckets : Nat
  capped : Bool

/-- The pairs of a bucket, the lower index first. -/
def bucketPairs (members : List Nat) : List (Nat × Nat) :=
  (pairsOf members).map fun pair => if pair.1 < pair.2 then pair else pair.swap

def expandBuckets (options : SweepOptions) : List (List Nat) → Candidates → Candidates
  | [], out => out
  | members :: buckets, out =>
      if members.length < 2 then expandBuckets options buckets out
      else if options.maxBucket < members.length then
        expandBuckets options buckets { out with skippedBuckets := out.skippedBuckets + 1 }
      else
        let inserted := insertPairs options.maxCandidatePairs (bucketPairs members) out.pairs
        if inserted.2 then { out with pairs := inserted.1, capped := true }
        else expandBuckets options buckets { out with pairs := inserted.1 }

/-- `candidate_pairs`. -/
def candidatePairs (buckets : List ((Nat ×ₗ Nat) × List Nat)) (options : SweepOptions) :
    Candidates :=
  expandBuckets options (buckets.map Prod.snd) ⟨[], 0, false⟩

section Cluster

variable (isAlphanumeric : Char → Bool)

/-- The normalized bodies that are long enough. -/
def normalizedBodies (bodies : List Text) (options : SweepOptions) : List (Option Text) :=
  bodies.map fun body =>
    let text := normalize isAlphanumeric body
    if text.length < options.minDupBodyChars then none else some text

def signaturesOf (normalized : List (Option Text)) (options : SweepOptions) :
    List (Option (List UInt64)) :=
  normalized.map fun text => text.bind fun text => minhash text options.minhashHashes

/-- A candidate pair is verified. -/
def accepts (normalized : List (Option Text)) (options : SweepOptions) (pair : Nat × Nat) : Bool :=
  match normalized[pair.1]?.join, normalized[pair.2]?.join with
  | some left, some right => (nearDuplicate left right options.dupThreshold).isSome
  | _, _ => false

def mergePairs (normalized : List (Option Text)) (options : SweepOptions)
    (pairs : List (Nat × Nat)) : UnionFind :=
  pairs.foldl
    (fun forest pair =>
      if accepts normalized options pair then forest.union pair.1 pair.2 else forest)
    UnionFind.new

/-- The indices by the roots they are found to have. -/
def gather : List (Option Text × Nat) → UnionFind → List (Nat × List Nat) → List (Nat × List Nat)
  | [], _, groups => groups
  | (none, _) :: rest, forest, groups => gather rest forest groups
  | (some _, index) :: rest, forest, groups =>
      gather rest (forest.find index).1 (push (forest.find index).2 index groups)

/-- The candidates of the buckets that the normalized bodies fall into. -/
def candidatesOf (normalized : List (Option Text)) (options : SweepOptions) : Candidates :=
  candidatePairs (bandBuckets (signaturesOf normalized options) options) options

/-- `cluster_near_duplicates`. -/
def clusterNearDuplicates (bodies : List Text) (options : SweepOptions) : DuplicateClusters :=
  let normalized := normalizedBodies isAlphanumeric bodies options
  let candidates := candidatesOf normalized options
  let forest := mergePairs normalized options candidates.pairs
  let groups := (gather normalized.zipIdx forest []).map Prod.snd
  { clusters := (groups.filter (2 ≤ ·.length)).insertionSort (· ≤ ·)
    candidatePairs := candidates.pairs.length
    skippedBuckets := candidates.skippedBuckets
    capped := candidates.capped }

end Cluster

/-- The pairs of the buckets that are not skipped. -/
def blockedPairs (options : SweepOptions) (buckets : List (List Nat)) : List (Nat × Nat) :=
  buckets.flatMap fun members =>
    if options.maxBucket < members.length then [] else bucketPairs members

variable {pairs : List (Nat × Nat)}

theorem mem_insertPair {pair other : Nat × Nat} :
    other ∈ insertPair pair pairs ↔ other = pair ∨ other ∈ pairs := by
  rw [insertPair]
  split
  next present =>
    constructor
    · exact .inr
    · rintro (rfl | old)
      · exact present
      · exact old
  · exact List.mem_orderedInsert PairLe

theorem nodup_insertPair {pair : Nat × Nat} (nodup : pairs.Nodup) :
    (insertPair pair pairs).Nodup := by
  rw [insertPair]
  split
  · exact nodup
  next absent =>
    rw [(List.perm_orderedInsert PairLe pair pairs).nodup_iff]
    exact List.nodup_cons.mpr ⟨absent, nodup⟩

/-- What the pairs inserted are, and when the set is full. -/
structure Inserted (cap : Nat) (offered before : List (Nat × Nat))
    (result : List (Nat × Nat) × Bool) : Prop where
  nodup : before.Nodup → result.1.Nodup
  sound : ∀ pair ∈ result.1, pair ∈ offered ∨ pair ∈ before
  complete : result.2 = false → ∀ pair, pair ∈ offered ∨ pair ∈ before → pair ∈ result.1
  room : result.2 = false → offered = [] ∨ result.1.length < cap
  full : result.2 = true → offered ≠ [] ∧ cap ≤ result.1.length

theorem inserted_insertPairs (cap : Nat) (offered before : List (Nat × Nat)) :
    Inserted cap offered before (insertPairs cap offered before) := by
  induction offered generalizing before with
  | nil =>
      rw [insertPairs]
      exact ⟨id, fun _ => .inr, fun _ _ held => by simpa using held, fun _ => .inl rfl, by simp⟩
  | cons pair rest induction =>
      rw [insertPairs]
      split
      next full =>
        refine ⟨nodup_insertPair, ?_, by simp, by simp, fun _ => ⟨by simp, full⟩⟩
        intro other member
        rcases mem_insertPair.mp member with rfl | old
        · exact .inl List.mem_cons_self
        · exact .inr old
      next room =>
        have later := induction (insertPair pair before)
        refine ⟨fun nodup => later.nodup (nodup_insertPair nodup), ?_, ?_, ?_, ?_⟩
        · intro other member
          rcases later.sound other member with offered | old
          · exact .inl (List.mem_cons_of_mem _ offered)
          rcases mem_insertPair.mp old with rfl | old
          · exact .inl List.mem_cons_self
          · exact .inr old
        · intro notFull other held
          apply later.complete notFull
          rw [mem_insertPair]
          rcases held with offered | old
          · rcases List.mem_cons.mp offered with rfl | offered
            · exact .inr (.inl rfl)
            · exact .inl offered
          · exact .inr (.inr old)
        · intro notFull
          right
          rcases later.room notFull with rfl | room
          · exact Nat.not_le.mp room
          · exact room
        · intro isFull
          exact ⟨by simp, (later.full isFull).2⟩

/-- The set is full as soon as the distinct pairs reach the cap. -/
theorem Inserted.capped_iff {cap : Nat} {offered : List (Nat × Nat)}
    {result : List (Nat × Nat) × Bool} (inserted : Inserted cap offered [] result) :
    result.2 = true ↔ max cap 1 ≤ offered.dedup.length := by
  have nodup := inserted.nodup List.nodup_nil
  have included : result.1 ⊆ offered.dedup := fun pair member =>
    List.mem_dedup.mpr ((inserted.sound pair member).resolve_right List.not_mem_nil)
  have atMost := (List.subperm_of_subset nodup included).length_le
  constructor
  · intro full
    obtain ⟨present, reached⟩ := inserted.full full
    have positive : 0 < offered.dedup.length := by
      rw [List.length_pos_iff]
      exact fun empty => present ((List.dedup_eq_nil offered).mp empty)
    omega
  · intro reached
    by_contra notFull
    rw [Bool.not_eq_true] at notFull
    rcases inserted.room notFull with rfl | room
    · rw [List.dedup_nil, List.length_nil] at reached
      omega
    · have all : offered.dedup ⊆ result.1 := fun pair member =>
        inserted.complete notFull pair (.inl (List.mem_dedup.mp member))
      have atLeast := (List.subperm_of_subset (List.nodup_dedup offered) all).length_le
      omega

theorem insertPairs_append (cap : Nat) (first second before : List (Nat × Nat)) :
    insertPairs cap (first ++ second) before =
      if (insertPairs cap first before).2 then insertPairs cap first before
      else insertPairs cap second (insertPairs cap first before).1 := by
  induction first generalizing before with
  | nil => simp [insertPairs]
  | cons pair first induction =>
      rw [List.cons_append, insertPairs, insertPairs]
      split
      · simp
      · exact induction _

theorem bucketPairs_of_short {members : List Nat} (short : members.length < 2) :
    bucketPairs members = [] := by
  match members with
  | [] => rfl
  | [_] => rfl
  | first :: second :: rest =>
      rw [List.length_cons, List.length_cons] at short
      omega

variable {out : Candidates}

theorem expandBuckets_inserts (options : SweepOptions) (buckets : List (List Nat))
    (notCapped : out.capped = false) :
    (expandBuckets options buckets out).pairs =
        (insertPairs options.maxCandidatePairs (blockedPairs options buckets) out.pairs).1 ∧
      (expandBuckets options buckets out).capped =
        (insertPairs options.maxCandidatePairs (blockedPairs options buckets) out.pairs).2 := by
  induction buckets generalizing out with
  | nil => exact ⟨rfl, notCapped⟩
  | cons members buckets induction =>
      rw [blockedPairs, List.flatMap_cons, expandBuckets]
      split
      next short =>
        rw [bucketPairs_of_short short, ite_self]
        exact induction notCapped
      split
      · exact @induction { out with skippedBuckets := out.skippedBuckets + 1 } notCapped
      · rw [insertPairs_append]
        dsimp only
        split
        next full => exact ⟨rfl, full.symm⟩
        · exact @induction { out with pairs := _ } notCapped

theorem skippedBuckets_expandBuckets (options : SweepOptions) (buckets : List (List Nat))
    (out : Candidates) :
    out.skippedBuckets ≤ (expandBuckets options buckets out).skippedBuckets := by
  induction buckets generalizing out with
  | nil => exact Nat.le_refl _
  | cons members buckets induction =>
      rw [expandBuckets]
      split
      · exact induction out
      split
      · exact (Nat.le_succ _).trans (induction { out with skippedBuckets := _ + 1 })
      · generalize insertPairs options.maxCandidatePairs (bucketPairs members) out.pairs = inserted
        dsimp only
        split
        · exact Nat.le_refl _
        · exact induction { out with pairs := inserted.1 }

theorem length_le_of_none_skipped {options : SweepOptions} {buckets : List (List Nat)}
    (notCapped : (expandBuckets options buckets out).capped = false)
    (noneSkipped : (expandBuckets options buckets out).skippedBuckets = 0) :
    ∀ members ∈ buckets, 2 ≤ members.length → members.length ≤ options.maxBucket := by
  induction buckets generalizing out with
  | nil => simp
  | cons first buckets induction =>
      intro members member long
      rw [expandBuckets] at notCapped noneSkipped
      split at notCapped
      next short =>
        rw [if_pos short] at noneSkipped
        rcases List.mem_cons.mp member with rfl | later
        · omega
        · exact induction notCapped noneSkipped members later long
      next isLong =>
        rw [if_neg isLong] at noneSkipped
        split at notCapped
        next oversized =>
          rw [if_pos oversized] at noneSkipped
          have counted := skippedBuckets_expandBuckets options buckets
            { out with skippedBuckets := out.skippedBuckets + 1 }
          dsimp only at counted
          omega
        next fits =>
          rw [if_neg fits] at noneSkipped
          dsimp only at notCapped noneSkipped
          split at notCapped
          · cases notCapped
          next room =>
            rw [if_neg room] at noneSkipped
            rcases List.mem_cons.mp member with rfl | later
            · exact Nat.not_lt.mp fits
            · exact induction notCapped noneSkipped members later long

end Crystalline.Sweep
