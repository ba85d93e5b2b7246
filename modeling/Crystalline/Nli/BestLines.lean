import Crystalline.Ranking.Bounded
import Crystalline.Ranking.Floats
import Crystalline.Text.Basic
import Mathlib.Data.List.AList

/-!
# The best line pairs are kept

A line counts once on its side, at its first occurrence.  The pairs kept are the
first ones of all pairs of differing lines whose similarity is a number at or above
the floor.
-/

namespace Crystalline.Nli

open Ranking Text

structure FactObservation where
  line : Nat
  text : Text
  deriving DecidableEq

/-- `fold`. -/
def fold (text : Text) : Text := [' '].intercalate (splitWhitespace text)

/-- A line of one side: its index, hash and vector. -/
structure EmbeddedLine (Component : Type) where
  index : Nat
  hash : Text
  vector : List Component
  deriving Inhabited

structure KeptLine where
  ia : Nat
  ib : Nat
  hashA : Text
  hashB : Text
  similarity : F32
  deriving DecidableEq

structure LinePairs where
  kept : List KeptLine
  aboveFloor : Nat
  deriving DecidableEq

/-- `capped`. -/
def LinePairs.capped (pairs : LinePairs) : Bool := pairs.kept.length < pairs.aboveFloor

/-- A similarity and the places of two lines. -/
structure LineCandidate where
  similarity : F32
  x : Nat
  y : Nat
  deriving DecidableEq

namespace LineCandidate

/-- `order`. -/
def order (candidate other : LineCandidate) : Ordering :=
  (other.similarity.totalCmp candidate.similarity).then
    ((compare candidate.x other.x).then (compare candidate.y other.y))

/-- Not after another. -/
def Before (candidate other : LineCandidate) : Prop := candidate.order other ≠ .gt

instance : DecidableRel Before := fun _ _ => inferInstanceAs (Decidable (_ ≠ _))

end LineCandidate

abbrev LineVectors (Component : Type) : Type := AList fun _ : Text => List Component

section Model

variable {Component : Type} (cosine : List Component → List Component → F32)
  (digest : Text → Text)

/-- `observation_hash`. -/
def observationHash (text : Text) : Text := digest (fold text)

/-- `embedded_side` from some line on, with the hashes seen before it. -/
def embeddedSideFrom (vectors : LineVectors Component) :
    List (FactObservation × Nat) → List Text → Option (List (EmbeddedLine Component))
  | [], _ => some []
  | (observation, index) :: rest, seen =>
      if fold observation.text = [] then embeddedSideFrom vectors rest seen
      else
        let hash := observationHash digest observation.text
        if hash ∈ seen then embeddedSideFrom vectors rest seen
        else
          (vectors.lookup hash).bind fun vector =>
            (embeddedSideFrom vectors rest (hash :: seen)).map fun out =>
              ⟨index, hash, vector⟩ :: out

/-- `embedded_side`. -/
def embeddedSide (observations : List FactObservation) (vectors : LineVectors Component) :
    Option (List (EmbeddedLine Component)) :=
  embeddedSideFrom digest vectors observations.zipIdx []

/-- Two lines that differ, when their similarity is a number the floor does not
refuse. -/
def scoreLines (floor : F64) (left right : EmbeddedLine Component × Nat) :
    Option LineCandidate :=
  if left.1.hash = right.1.hash then none
  else
    let similarity := cosine left.1.vector right.1.vector
    if similarity.isNan || (widen similarity).lt floor then none
    else some ⟨similarity, left.2, right.2⟩

/-- The best candidates so far, and how many there were. -/
structure LineScan where
  best : List LineCandidate
  aboveFloor : Nat

/-- A full list keeps only what beats its weakest entry. -/
def LineScan.offer (limit : Nat) (scan : LineScan) (candidate : LineCandidate) : LineScan where
  best :=
    if scan.best.length = limit ∧
        scan.best.getLast?.all (fun weakest => candidate.order weakest ≠ .lt) = true then scan.best
    else ((scan.best ++ [candidate]).insertionSort LineCandidate.Before).take limit
  aboveFloor := scan.aboveFloor + 1

/-- A pair of lines met. -/
def LineScan.meet (limit : Nat) (scan : LineScan) : Option LineCandidate → LineScan
  | none => scan
  | some candidate => scan.offer limit candidate

/-- The loop over every line of one side and every line of the other. -/
def scanLines (floor : F64) (limit : Nat) (sa sb : List (EmbeddedLine Component)) : LineScan :=
  sa.zipIdx.foldl
    (fun scan left => sb.zipIdx.foldl
      (fun scan right => scan.meet limit (scoreLines cosine floor left right)) scan)
    ⟨[], 0⟩

/-- `line_pairs`. -/
def linePairs (a b : List FactObservation) (vectors : LineVectors Component) (floor : F64)
    (limit : Nat) : Option LinePairs :=
  (embeddedSide digest a vectors).bind fun sa =>
    (embeddedSide digest b vectors).map fun sb =>
      let scan := scanLines cosine floor limit sa sb
      { kept := scan.best.map fun candidate =>
          let left := sa.getD candidate.x default
          let right := sb.getD candidate.y default
          ⟨left.index, right.index, left.hash, right.hash, candidate.similarity⟩
        aboveFloor := scan.aboveFloor }

end Model

/-- A line with words and a vector, at the first occurrence of its text. -/
structure DistinctLine (Component : Type) where
  index : Nat
  text : Text
  vector : List Component

/-- The line is the first with its text, and has words. -/
def opens (observations : List FactObservation) (line : FactObservation × Nat) : Bool :=
  fold line.1.text ≠ [] &&
    (observations.take line.2).all fun earlier => fold earlier.text ≠ fold line.1.text

namespace KeptLine

/-- More similar; as similar, but a positive zero against a negative one; or as
similar and not later in the documents. -/
def Before (pair other : KeptLine) : Prop :=
  other.similarity.signed < pair.similarity.signed ∨
    (other.similarity.signed = pair.similarity.signed ∧
      other.similarity.negative = true ∧ pair.similarity.negative = false) ∨
    (pair.similarity.signed = other.similarity.signed ∧
      pair.similarity.negative = other.similarity.negative ∧
      (pair.ia < other.ia ∨ (pair.ia = other.ia ∧ pair.ib ≤ other.ib)))

instance : DecidableRel Before := fun _ _ => inferInstanceAs (Decidable (_ ∨ _))

theorem before_iff {pair other : KeptLine} : pair.Before other ↔
    other.similarity.rank < pair.similarity.rank ∨
      (pair.similarity.rank = other.similarity.rank ∧
        (pair.ia < other.ia ∨ (pair.ia = other.ia ∧ pair.ib ≤ other.ib))) := by
  rw [Before, Binary.rank_lt_iff, Binary.rank_eq_iff, or_assoc, and_assoc]

end KeptLine

section Spec

variable {Component : Type} (cosine : List Component → List Component → F32)
  (digest : Text → Text)

def distinctLines (observations : List FactObservation) (vectors : LineVectors Component) :
    List (DistinctLine Component) :=
  (observations.zipIdx.filter (opens observations)).filterMap fun line =>
    (vectors.lookup (observationHash digest line.1.text)).map fun vector =>
      ⟨line.2, fold line.1.text, vector⟩

/-- All pairs of lines with different texts whose similarity is a number. -/
def comparableLines (a b : List FactObservation) (vectors : LineVectors Component) :
    List KeptLine :=
  (distinctLines digest a vectors).flatMap fun left =>
    (distinctLines digest b vectors).filterMap fun right =>
      if left.text = right.text ∨ (cosine left.vector right.vector).isNan = true then none
      else some ⟨left.index, right.index, digest left.text, digest right.text,
        cosine left.vector right.vector⟩

/-- The comparable pairs at or above the floor. -/
def linesAbove (a b : List FactObservation) (vectors : LineVectors Component) (floor : F64) :
    List KeptLine :=
  (comparableLines cosine digest a b vectors).filter fun pair => floor.le (widen pair.similarity)

/-- Some line with words has no vector. -/
def Waits (a b : List FactObservation) (vectors : LineVectors Component) : Prop :=
  ∃ observation ∈ a ++ b, fold observation.text ≠ [] ∧
    vectors.lookup (observationHash digest observation.text) = none

/-- What is asked of the line pairs of two engrams. -/
structure BestLines (a b : List FactObservation) (vectors : LineVectors Component) (floor : F64)
    (limit : Nat) : Prop where
  waits : linePairs cosine digest a b vectors floor limit = none ↔ Waits digest a b vectors
  kept : ∀ found, linePairs cosine digest a b vectors floor limit = some found →
    found.kept = ((linesAbove cosine digest a b vectors floor).insertionSort
      KeptLine.Before).take limit
  aboveFloor : ∀ found, linePairs cosine digest a b vectors floor limit = some found →
    found.aboveFloor = (linesAbove cosine digest a b vectors floor).length
  distinct : ∀ found, linePairs cosine digest a b vectors floor limit = some found →
    found.kept.Pairwise fun pair other => ¬ (pair.hashA = other.hashA ∧ pair.hashB = other.hashB)
  capped : ∀ found, linePairs cosine digest a b vectors floor limit = some found →
    (found.capped = true ↔
      ∃ pair ∈ linesAbove cosine digest a b vectors floor, pair ∉ found.kept)

/-- No two different texts of the lines have one hash. -/
def Apart (observations : List FactObservation) : Prop :=
  ∀ observation ∈ observations, ∀ other ∈ observations,
    observationHash digest observation.text = observationHash digest other.text →
    fold observation.text = fold other.text

end Spec

section Sides

variable {Component : Type} {digest : Text → Text} {vectors : LineVectors Component}

def DistinctLine.embedded (digest : Text → Text) (line : DistinctLine Component) :
    EmbeddedLine Component := ⟨line.index, digest line.text, line.vector⟩

variable {observations : List FactObservation}

/-- The hashes seen are those of the lines with words before. -/
def Known (digest : Text → Text) (earlier : List FactObservation) (seen : List Text) : Prop :=
  ∀ hash, hash ∈ seen ↔ ∃ observation ∈ earlier,
    fold observation.text ≠ [] ∧ observationHash digest observation.text = hash

section Known

variable {observation : FactObservation} {earlier rest : List FactObservation} {seen : List Text}
  (known : Known digest earlier seen)
include known

theorem Known.wordless (words : fold observation.text = []) :
    Known digest (earlier ++ [observation]) seen := by
  intro hash
  rw [known]
  simp [words]

theorem Known.repeated (seenBefore : observationHash digest observation.text ∈ seen) :
    Known digest (earlier ++ [observation]) seen := by
  intro hash
  rw [known]
  constructor
  · rintro ⟨other, inside, holds⟩
    exact ⟨other, List.mem_append_left _ inside, holds⟩
  · rintro ⟨other, inside, holds⟩
    rcases List.mem_append.mp inside with inside | single
    · exact ⟨other, inside, holds⟩
    · rw [List.mem_singleton.mp single] at holds
      rw [← holds.2]
      exact (known _).mp seenBefore

theorem Known.opened (words : fold observation.text ≠ []) :
    Known digest (earlier ++ [observation]) (observationHash digest observation.text :: seen) := by
  intro hash
  rw [List.mem_cons, known]
  simp only [List.mem_append, List.mem_singleton]
  constructor
  · rintro (rfl | ⟨other, inside, holds⟩)
    · exact ⟨observation, .inr rfl, words, rfl⟩
    · exact ⟨other, .inl inside, holds⟩
  · rintro ⟨other, inside | rfl, holds⟩
    · exact .inr ⟨other, inside, holds⟩
    · exact .inl holds.2.symm

/-- A line opens its text when it has words and its hash was not seen. -/
theorem Known.opens_iff (apart : Apart digest observations)
    (split : observations = earlier ++ observation :: rest) :
    opens observations (observation, earlier.length) = true ↔
      fold observation.text ≠ [] ∧ observationHash digest observation.text ∉ seen := by
  have before : observations.take earlier.length = earlier := by
    rw [split, List.take_left']
    rfl
  have here : observation ∈ observations := by simp [split]
  rw [opens, before, Bool.and_eq_true, decide_eq_true_eq, List.all_eq_true]
  refine and_congr_right fun words => ?_
  rw [known]
  constructor
  · rintro different ⟨first, member, -, same⟩
    have inside : first ∈ observations := by simp [split, member]
    exact of_decide_eq_true (different first member) (apart first inside observation here same)
  · intro unseen first member
    refine decide_eq_true fun same => unseen ⟨first, member, ?_, ?_⟩
    · rw [same]
      exact words
    · rw [observationHash, observationHash, same]

end Known

/-- A line whose vector is there is not among those that wait. -/
theorem waits_cons {observation : FactObservation} {rest : List FactObservation}
    {seen : List Text} {vector : List Component}
    (held : vectors.lookup (observationHash digest observation.text) = some vector) :
    (∃ other ∈ rest, fold other.text ≠ [] ∧
        observationHash digest other.text ∉ observationHash digest observation.text :: seen ∧
        vectors.lookup (observationHash digest other.text) = none) ↔
      ∃ other ∈ observation :: rest, fold other.text ≠ [] ∧
        observationHash digest other.text ∉ seen ∧
        vectors.lookup (observationHash digest other.text) = none := by
  constructor
  · rintro ⟨other, inside, words, unseen, missing⟩
    exact ⟨other, List.mem_cons_of_mem _ inside, words,
      fun member => unseen (List.mem_cons_of_mem _ member), missing⟩
  · rintro ⟨other, inside, words, unseen, missing⟩
    have apartHash : observationHash digest other.text ≠
        observationHash digest observation.text := by
      intro same
      rw [same, held] at missing
      cases missing
    rcases List.mem_cons.mp inside with rfl | inside
    · exact absurd rfl apartHash
    · exact ⟨other, inside, words, List.not_mem_cons_of_ne_of_not_mem apartHash unseen, missing⟩

/-- A side from some line on, when the hashes seen are those of the lines before it. -/
theorem embeddedSideFrom_eq (apart : Apart digest observations)
    (rest earlier : List FactObservation) (split : observations = earlier ++ rest)
    (seen : List Text) (known : Known digest earlier seen) :
    (embeddedSideFrom digest vectors (rest.zipIdx earlier.length) seen = none ↔
      ∃ observation ∈ rest, fold observation.text ≠ [] ∧
        observationHash digest observation.text ∉ seen ∧
        vectors.lookup (observationHash digest observation.text) = none) ∧
    ∀ out, embeddedSideFrom digest vectors (rest.zipIdx earlier.length) seen = some out →
      out = (((rest.zipIdx earlier.length).filter (opens observations)).filterMap fun line =>
        (vectors.lookup (observationHash digest line.1.text)).map fun vector =>
          (⟨line.2, fold line.1.text, vector⟩ : DistinctLine Component)).map
            (DistinctLine.embedded digest) := by
  induction rest generalizing earlier seen with
  | nil =>
      refine ⟨by simp [embeddedSideFrom], ?_⟩
      intro out same
      obtain rfl := Option.some.inj same
      rfl
  | cons observation rest induction =>
      have next : observations = (earlier ++ [observation]) ++ rest := by
        rw [split, List.append_assoc]
        rfl
      have later (seen : List Text) := induction (earlier ++ [observation]) next seen
      rw [List.length_append, List.length_singleton] at later
      have opens := known.opens_iff apart split
      rw [List.zipIdx_cons, embeddedSideFrom]
      by_cases words : fold observation.text = []
      · obtain ⟨waits, found⟩ := later seen (known.wordless words)
        rw [if_pos words, List.filter_cons_of_neg (fun opened => (opens.mp opened).1 words)]
        refine ⟨waits.trans ?_, found⟩
        simp [words]
      rw [if_neg words]
      dsimp only
      by_cases repeated : observationHash digest observation.text ∈ seen
      · obtain ⟨waits, found⟩ := later seen (known.repeated repeated)
        rw [if_pos repeated, List.filter_cons_of_neg (fun opened => (opens.mp opened).2 repeated)]
        refine ⟨waits.trans ?_, found⟩
        simp [repeated]
      · obtain ⟨waits, found⟩ := later _ (known.opened words)
        rw [if_neg repeated, List.filter_cons_of_pos (opens.mpr ⟨words, repeated⟩),
          List.filterMap_cons]
        cases held : vectors.lookup (observationHash digest observation.text) with
        | none =>
            refine ⟨?_, fun out same => by cases same⟩
            exact iff_of_true rfl ⟨observation, List.mem_cons_self, words, repeated, held⟩
        | some vector =>
            rw [Option.bind_some, Option.map_some, Option.map_eq_none_iff, waits, waits_cons held]
            refine ⟨Iff.rfl, fun out same => ?_⟩
            obtain ⟨more, isMore, rfl⟩ := Option.map_eq_some_iff.mp same
            rw [found more isMore]
            rfl

theorem embeddedSide_eq (apart : Apart digest observations) :
    (embeddedSide digest observations vectors = none ↔
      ∃ observation ∈ observations, fold observation.text ≠ [] ∧
        vectors.lookup (observationHash digest observation.text) = none) ∧
    ∀ out, embeddedSide digest observations vectors = some out →
      out = (distinctLines digest observations vectors).map (DistinctLine.embedded digest) := by
  obtain ⟨waits, found⟩ := @embeddedSideFrom_eq _ _ vectors _ apart observations [] rfl []
    (fun _ => by simp)
  refine ⟨waits.trans ?_, found⟩
  simp

end Sides

namespace LineCandidate

theorem swap_order (candidate other : LineCandidate) :
    (candidate.order other).swap = other.order candidate := by
  rw [order, order, Ordering.swap_then, Ordering.swap_then, Binary.totalCmp, Binary.totalCmp,
    ← Std.OrientedCmp.eq_swap, ← Std.OrientedCmp.eq_swap, ← Std.OrientedCmp.eq_swap]

theorem before_iff {candidate other : LineCandidate} : candidate.Before other ↔
    other.similarity.rank < candidate.similarity.rank ∨
      (candidate.similarity.rank = other.similarity.rank ∧
        (candidate.x < other.x ∨ (candidate.x = other.x ∧ candidate.y ≤ other.y))) := by
  rw [Before, order, Binary.totalCmp]
  rcases lt_trichotomy other.similarity.rank candidate.similarity.rank with less | same | more
  · rw [compare_lt_iff_lt.mpr less]
    simp [Ordering.then, less]
  · rw [compare_eq_iff_eq.mpr same]
    rcases lt_trichotomy candidate.x other.x with less' | same' | more'
    · rw [compare_lt_iff_lt.mpr less']
      simp [Ordering.then]
      omega
    · rw [compare_eq_iff_eq.mpr same']
      simp only [Ordering.then]
      rw [ne_eq, compare_gt_iff_gt]
      omega
    · rw [compare_gt_iff_gt.mpr more']
      simp [Ordering.then]
      omega
  · rw [compare_gt_iff_gt.mpr more]
    simp [Ordering.then]
    omega

instance : Std.Total Before where
  total candidate other := by
    rw [before_iff, before_iff]
    omega

instance : IsTrans LineCandidate Before where
  trans candidate middle other := by
    rw [before_iff, before_iff, before_iff]
    omega

instance : Std.Antisymm Before where
  antisymm candidate other := by
    rw [before_iff, before_iff]
    intro first second
    have ranks : candidate.similarity.rank = other.similarity.rank := by omega
    obtain ⟨similarity, x, y⟩ := candidate
    obtain ⟨similarity', x', y'⟩ := other
    obtain rfl := Binary.rank_injective ranks
    simp only [LineCandidate.mk.injEq, true_and]
    dsimp only at first second
    omega

end LineCandidate

section Scan

variable {Component : Type} {cosine : List Component → List Component → F32} {floor : F64}
  {limit : Nat}

/-- What one candidate does to the list. -/
theorem LineScan.offer_best {scan : LineScan} (candidate : LineCandidate)
    (inOrder : scan.best.Pairwise LineCandidate.Before) :
    (scan.offer limit candidate).best = keep LineCandidate.Before limit scan.best candidate := by
  rw [offer]
  dsimp only
  split
  next rejected =>
    obtain ⟨full, loses⟩ := rejected
    refine (keep_of_full LineCandidate.Before full inOrder ?_).symm
    rcases List.eq_nil_or_concat scan.best with none | ⟨others, weakest, same⟩
    · rw [none]
      exact fun other member => by cases member
    · rw [List.concat_eq_append] at same
      rw [same, List.getLast?_concat, Option.all_some, decide_eq_true_eq] at loses
      have last : weakest.Before candidate := by
        intro more
        rw [← LineCandidate.swap_order, Ordering.swap_eq_gt] at more
        exact loses more
      rw [same] at inOrder ⊢
      intro other member
      rcases List.mem_append.mp member with inside | single
      · exact IsTrans.trans _ _ _ ((List.pairwise_append.mp inOrder).2.2 other inside weakest
          (List.mem_singleton_self weakest)) last
      · rw [List.mem_singleton.mp single]
        exact last
  next =>
    rw [keep, orderedInsert_eq LineCandidate.Before inOrder
      (List.pairwise_insertionSort LineCandidate.Before (scan.best ++ [candidate]))]
    exact (List.perm_insertionSort LineCandidate.Before _).trans
      (List.perm_append_singleton candidate scan.best)

theorem foldl_offer (candidates : List LineCandidate) (scan : LineScan)
    (inOrder : scan.best.Pairwise LineCandidate.Before) :
    (candidates.foldl (LineScan.offer limit) scan).best =
        candidates.foldl (keep LineCandidate.Before limit) scan.best ∧
      (candidates.foldl (LineScan.offer limit) scan).aboveFloor =
        scan.aboveFloor + candidates.length := by
  induction candidates generalizing scan with
  | nil => exact ⟨rfl, rfl⟩
  | cons candidate candidates induction =>
      have same := @LineScan.offer_best limit _ candidate inOrder
      have sorted : (scan.offer limit candidate).best.Pairwise LineCandidate.Before := by
        rw [same]
        exact keep_pairwise LineCandidate.Before inOrder
      obtain ⟨best, above⟩ := induction (scan.offer limit candidate) sorted
      rw [List.foldl_cons, List.foldl_cons, best, above, same, List.length_cons]
      exact ⟨rfl, by rw [LineScan.offer]; dsimp only; omega⟩

/-- The candidates of two sides, in the order they are met. -/
def candidatesOf (cosine : List Component → List Component → F32) (floor : F64)
    (sa sb : List (EmbeddedLine Component)) : List LineCandidate :=
  sa.zipIdx.flatMap fun left => sb.zipIdx.filterMap fun right => scoreLines cosine floor left right

theorem scanLines_eq (sa sb : List (EmbeddedLine Component)) :
    scanLines cosine floor limit sa sb =
      ⟨((candidatesOf cosine floor sa sb).insertionSort LineCandidate.Before).take limit,
        (candidatesOf cosine floor sa sb).length⟩ := by
  have flat : scanLines cosine floor limit sa sb =
      (candidatesOf cosine floor sa sb).foldl (LineScan.offer limit) ⟨[], 0⟩ := by
    rw [scanLines, candidatesOf, List.foldl_flatMap]
    congr 1
    funext scan left
    rw [List.foldl_filterMap]
    congr 1
    funext scan right
    cases scoreLines cosine floor left right <;> rfl
  obtain ⟨best, above⟩ := @foldl_offer limit (candidatesOf cosine floor sa sb) ⟨[], 0⟩ .nil
  rw [foldl_keep_nil] at best
  rw [Nat.zero_add] at above
  rw [flat, ← best, ← above]

end Scan

section Places

theorem places_of_increasing {α : Type*} {number : α → Nat} {list : List α}
    (increasing : list.Pairwise fun left right => number left < number right)
    {left right : α × Nat} (inLeft : left ∈ list.zipIdx) (inRight : right ∈ list.zipIdx) :
    (left.2 < right.2 ↔ number left.1 < number right.1) ∧
      (left.2 = right.2 ↔ number left.1 = number right.1) := by
  have atLeft := List.mem_zipIdx_iff_getElem?.mp inLeft
  have atRight := List.mem_zipIdx_iff_getElem?.mp inRight
  obtain ⟨inBounds, isLeft⟩ := List.getElem?_eq_some_iff.mp atLeft
  obtain ⟨inBounds', isRight⟩ := List.getElem?_eq_some_iff.mp atRight
  have ordered := List.pairwise_iff_getElem.mp increasing
  rcases lt_trichotomy left.2 right.2 with less | same | more
  · have numbers := ordered _ _ inBounds inBounds' less
    rw [isLeft, isRight] at numbers
    omega
  · rw [same, atRight] at atLeft
    rw [← Option.some.inj atLeft]
    omega
  · have numbers := ordered _ _ inBounds' inBounds more
    rw [isLeft, isRight] at numbers
    omega

theorem increasing_zipIdx {α : Type*} (list : List α) :
    list.zipIdx.Pairwise fun left right => left.2 < right.2 := by
  have places : (list.zipIdx.map Prod.snd).Pairwise (· < ·) := by
    rw [List.zipIdx_map_snd]
    exact List.pairwise_lt_range'
  exact List.pairwise_map.mp places

end Places

section Lines

variable {Component : Type} {cosine : List Component → List Component → F32}
  {digest : Text → Text} {vectors : LineVectors Component} {floor : F64} {limit : Nat}
  {observations a b : List FactObservation}

theorem of_mem_distinctLines {line : DistinctLine Component}
    (member : line ∈ distinctLines digest observations vectors) :
    ∃ observation ∈ observations, fold observation.text = line.text := by
  obtain ⟨⟨observation, index⟩, inside, found⟩ := List.mem_filterMap.mp member
  obtain ⟨vector, -, rfl⟩ := Option.map_eq_some_iff.mp found
  have placed := List.mem_zipIdx_iff_getElem?.mp (List.mem_filter.mp inside).1
  exact ⟨observation, List.mem_of_getElem? placed, rfl⟩

theorem pairwise_distinctLines : (distinctLines digest observations vectors).Pairwise
    fun left right => left.index < right.index ∧ left.text ≠ right.text := by
  rw [distinctLines, List.pairwise_filterMap]
  have ordered := (increasing_zipIdx observations).sublist
    (List.filter_sublist (p := opens observations))
  refine ordered.imp_of_mem ?_
  rintro ⟨first, i⟩ ⟨second, j⟩ inFirst inSecond less left found right found'
  obtain ⟨vector, -, rfl⟩ := Option.map_eq_some_iff.mp found
  obtain ⟨vector', -, rfl⟩ := Option.map_eq_some_iff.mp found'
  refine ⟨less, ?_⟩
  have opened := (List.mem_filter.mp inSecond).2
  rw [opens, Bool.and_eq_true] at opened
  have earlier : first ∈ observations.take j := by
    apply List.mem_iff_getElem?.mpr
    refine ⟨i, ?_⟩
    rw [List.getElem?_take_of_lt less]
    exact List.mem_zipIdx_iff_getElem?.mp (List.mem_filter.mp inFirst).1
  exact of_decide_eq_true (List.all_eq_true.mp opened.2 first earlier)

theorem Apart.texts (apart : Apart digest (a ++ b)) {left right : Text}
    (inLeft : ∃ observation ∈ a ++ b, fold observation.text = left)
    (inRight : ∃ observation ∈ a ++ b, fold observation.text = right)
    (same : digest left = digest right) : left = right := by
  obtain ⟨observation, member, rfl⟩ := inLeft
  obtain ⟨other, member', rfl⟩ := inRight
  exact apart observation member other member' same

theorem mem_of_left {text : Text} (found : ∃ observation ∈ a, fold observation.text = text) :
    ∃ observation ∈ a ++ b, fold observation.text = text := by
  obtain ⟨observation, member, same⟩ := found
  exact ⟨observation, List.mem_append_left _ member, same⟩

theorem mem_of_right {text : Text} (found : ∃ observation ∈ b, fold observation.text = text) :
    ∃ observation ∈ a ++ b, fold observation.text = text := by
  obtain ⟨observation, member, same⟩ := found
  exact ⟨observation, List.mem_append_right _ member, same⟩

/-- The row that a candidate becomes. -/
def keptLine (sa sb : List (EmbeddedLine Component)) (candidate : LineCandidate) : KeptLine :=
  ⟨(sa.getD candidate.x default).index, (sb.getD candidate.y default).index,
    (sa.getD candidate.x default).hash, (sb.getD candidate.y default).hash, candidate.similarity⟩

/-- The row of two lines. -/
def lineRow (cosine : List Component → List Component → F32) (floor : F64)
    (left right : EmbeddedLine Component) : Option KeptLine :=
  (scoreLines cosine floor (left, 0) (right, 0)).map fun candidate =>
    ⟨left.index, right.index, left.hash, right.hash, candidate.similarity⟩

theorem lineRow_eq (left right : EmbeddedLine Component) : lineRow cosine floor left right =
    if left.hash = right.hash ∨ (cosine left.vector right.vector).isNan = true ∨
      (widen (cosine left.vector right.vector)).lt floor = true then none
    else some ⟨left.index, right.index, left.hash, right.hash,
      cosine left.vector right.vector⟩ := by
  rw [lineRow, scoreLines]
  by_cases same : left.hash = right.hash
  · simp [same]
  · cases isNan : (cosine left.vector right.vector).isNan <;>
      cases refused : (widen (cosine left.vector right.vector)).lt floor <;>
      simp [same, isNan, refused]

theorem getD_of_mem_zipIdx {list : List (EmbeddedLine Component)} {entry : EmbeddedLine Component × Nat}
    (member : entry ∈ list.zipIdx) : list.getD entry.2 default = entry.1 := by
  rw [List.getD_eq_getElem?_getD, List.mem_zipIdx_iff_getElem?.mp member, Option.getD_some]

theorem map_keptLine (sa sb : List (EmbeddedLine Component)) :
    (candidatesOf cosine floor sa sb).map (keptLine sa sb) =
      sa.flatMap fun left => sb.filterMap (lineRow cosine floor left) := by
  have row : ∀ left ∈ sa.zipIdx, ∀ right ∈ sb.zipIdx,
      (scoreLines cosine floor left right).map (keptLine sa sb) =
        lineRow cosine floor left.1 right.1 := by
    intro left inLeft right inRight
    rw [lineRow, scoreLines, scoreLines]
    split
    · rfl
    · dsimp only
      split
      · rfl
      · rw [Option.map_some, Option.map_some, keptLine]
        dsimp only
        rw [getD_of_mem_zipIdx inLeft, getD_of_mem_zipIdx inRight]
  have inner : ∀ left ∈ sa.zipIdx,
      (sb.zipIdx.filterMap fun right => scoreLines cosine floor left right).map (keptLine sa sb) =
        sb.filterMap (lineRow cosine floor left.1) := by
    intro left inLeft
    rw [List.map_filterMap, List.filterMap_congr fun right inRight => row left inLeft right inRight]
    conv => rhs; rw [← List.zipIdx_map_fst 0 sb, List.filterMap_map]
    rfl
  rw [candidatesOf, List.map_flatMap, List.flatMap_congr inner]
  conv => rhs; rw [← List.zipIdx_map_fst 0 sa, List.flatMap_map]

/-- Among the candidates of lines in document order, the order is that of the rows. -/
theorem before_iff_keptLine {sa sb : List (EmbeddedLine Component)}
    (inOrderA : sa.Pairwise fun left right => left.index < right.index)
    (inOrderB : sb.Pairwise fun left right => left.index < right.index)
    {candidate other : LineCandidate} (member : candidate ∈ candidatesOf cosine floor sa sb)
    (member' : other ∈ candidatesOf cosine floor sa sb) :
    candidate.Before other ↔ (keptLine sa sb candidate).Before (keptLine sa sb other) := by
  have placed : ∀ candidate ∈ candidatesOf cosine floor sa sb,
      ∃ left ∈ sa.zipIdx, ∃ right ∈ sb.zipIdx, candidate.x = left.2 ∧ candidate.y = right.2 := by
    intro candidate inside
    obtain ⟨left, inLeft, inside⟩ := List.mem_flatMap.mp inside
    obtain ⟨right, inRight, scored⟩ := List.mem_filterMap.mp inside
    refine ⟨left, inLeft, right, inRight, ?_⟩
    rw [scoreLines] at scored
    split at scored
    · cases scored
    · dsimp only at scored
      split at scored
      · cases scored
      · obtain rfl := Option.some.inj scored
        exact ⟨rfl, rfl⟩
  obtain ⟨left, inLeft, right, inRight, atX, atY⟩ := placed candidate member
  obtain ⟨left', inLeft', right', inRight', atX', atY'⟩ := placed other member'
  have ofA := places_of_increasing inOrderA inLeft inLeft'
  have ofB := places_of_increasing inOrderB inRight inRight'
  rw [LineCandidate.before_iff, KeptLine.before_iff, keptLine, keptLine]
  dsimp only
  rw [atX, atY, atX', atY', getD_of_mem_zipIdx inLeft, getD_of_mem_zipIdx inLeft',
    getD_of_mem_zipIdx inRight, getD_of_mem_zipIdx inRight']
  omega

section

variable (apart : Apart digest (a ++ b))
include apart

/-- The rows of two sides are those of the comparable lines the floor does not
refuse. -/
theorem flatMap_lineRow :
    (((distinctLines digest a vectors).map (DistinctLine.embedded digest)).flatMap fun left =>
      ((distinctLines digest b vectors).map (DistinctLine.embedded digest)).filterMap
        (lineRow cosine floor left)) =
      (comparableLines cosine digest a b vectors).filter fun pair =>
        !(widen pair.similarity).lt floor := by
  rw [List.flatMap_map, comparableLines, List.filter_flatMap]
  apply List.flatMap_congr
  intro left inLeft
  rw [List.filterMap_map, List.filter_filterMap]
  apply List.filterMap_congr
  intro right inRight
  have hashes : (left.embedded digest).hash = (right.embedded digest).hash ↔
      left.text = right.text :=
    ⟨apart.texts (mem_of_left (of_mem_distinctLines inLeft))
      (mem_of_right (of_mem_distinctLines inRight)), congrArg digest⟩
  rw [Function.comp_apply, lineRow_eq]
  by_cases same : left.text = right.text
  · rw [if_pos (.inl (hashes.mpr same)), if_pos (.inl same)]
    rfl
  · cases isNan : (cosine left.vector right.vector).isNan with
    | true =>
        rw [if_pos (.inr (.inl isNan)), if_pos (.inr rfl)]
        rfl
    | false =>
        rw [if_neg (c := left.text = right.text ∨ _) (by simp [same]), Option.filter_some]
        cases refused : (widen (cosine left.vector right.vector)).lt floor with
        | true =>
            rw [if_pos (.inr (.inr refused))]
            rfl
        | false =>
            rw [if_neg]
            · rfl
            · rintro (equal | nan | refuses)
              · exact same (hashes.mp equal)
              · exact absurd (isNan.symm.trans nan) Bool.false_ne_true
              · exact absurd (refused.symm.trans refuses) Bool.false_ne_true

/-- The pairs kept are the best of those the floor does not refuse. -/
theorem linePairs_eq_some {found : LinePairs}
    (answered : linePairs cosine digest a b vectors floor limit = some found) :
    found.kept = (((comparableLines cosine digest a b vectors).filter fun pair =>
        !(widen pair.similarity).lt floor).insertionSort KeptLine.Before).take limit ∧
      found.aboveFloor = ((comparableLines cosine digest a b vectors).filter fun pair =>
        !(widen pair.similarity).lt floor).length := by
  obtain ⟨sa, sideA, answered⟩ := Option.bind_eq_some_iff.mp answered
  obtain ⟨sb, sideB, rfl⟩ := Option.map_eq_some_iff.mp answered
  have apartA : Apart digest a := fun left inLeft right inRight =>
    apart left (List.mem_append_left _ inLeft) right (List.mem_append_left _ inRight)
  have apartB : Apart digest b := fun left inLeft right inRight =>
    apart left (List.mem_append_right _ inLeft) right (List.mem_append_right _ inRight)
  have ofA := (embeddedSide_eq apartA).2 sa sideA
  have ofB := (embeddedSide_eq apartB).2 sb sideB
  have rows := @map_keptLine _ cosine floor sa sb
  rw [ofA, ofB, flatMap_lineRow apart, ← ofA, ← ofB] at rows
  have inOrder (observations : List FactObservation) :
      ((distinctLines digest observations vectors).map (DistinctLine.embedded digest)).Pairwise
        fun left right => left.index < right.index :=
    List.pairwise_map.mpr (pairwise_distinctLines.imp fun ordered => ordered.1)
  have inOrderA := inOrder a
  have inOrderB := inOrder b
  rw [← ofA] at inOrderA
  rw [← ofB] at inOrderB
  have sorted := List.map_insertionSort LineCandidate.Before KeptLine.Before (keptLine sa sb)
    (candidatesOf cosine floor sa sb) fun candidate member other member' =>
      before_iff_keptLine inOrderA inOrderB member member'
  rw [rows] at sorted
  dsimp only
  rw [scanLines_eq]
  dsimp only
  refine ⟨?_, ?_⟩
  · rw [← sorted, List.map_take]
    rfl
  · rw [← rows, List.length_map]

theorem linePairs_eq_none :
    linePairs cosine digest a b vectors floor limit = none ↔ Waits digest a b vectors := by
  have apartA : Apart digest a := fun left inLeft right inRight =>
    apart left (List.mem_append_left _ inLeft) right (List.mem_append_left _ inRight)
  have apartB : Apart digest b := fun left inLeft right inRight =>
    apart left (List.mem_append_right _ inLeft) right (List.mem_append_right _ inRight)
  have waits : Waits digest a b vectors ↔
      embeddedSide digest a vectors = none ∨ embeddedSide digest b vectors = none := by
    rw [(embeddedSide_eq apartA).1, (embeddedSide_eq apartB).1, Waits]
    constructor
    · rintro ⟨observation, member, holds⟩
      rcases List.mem_append.mp member with inside | inside
      · exact .inl ⟨observation, inside, holds⟩
      · exact .inr ⟨observation, inside, holds⟩
    · rintro (⟨observation, inside, holds⟩ | ⟨observation, inside, holds⟩)
      · exact ⟨observation, List.mem_append_left _ inside, holds⟩
      · exact ⟨observation, List.mem_append_right _ inside, holds⟩
  rw [waits, linePairs]
  cases embeddedSide digest a vectors <;> cases embeddedSide digest b vectors <;> simp

/-- Two comparable pairs have different hashes on one side. -/
theorem pairwise_comparableLines :
    (comparableLines cosine digest a b vectors).Pairwise fun pair other =>
      ¬ (pair.hashA = other.hashA ∧ pair.hashB = other.hashB) := by
  have ofRow {left : DistinctLine Component} {right : DistinctLine Component} {pair : KeptLine}
      (row : (if left.text = right.text ∨ (cosine left.vector right.vector).isNan = true then none
        else some (⟨left.index, right.index, digest left.text, digest right.text,
          cosine left.vector right.vector⟩ : KeptLine)) = some pair) :
      pair.hashA = digest left.text ∧ pair.hashB = digest right.text := by
    split at row
    · cases row
    · obtain rfl := Option.some.inj row
      exact ⟨rfl, rfl⟩
  rw [comparableLines, List.pairwise_flatMap]
  constructor
  · intro left inLeft
    rw [List.pairwise_filterMap]
    refine pairwise_distinctLines.imp_of_mem ?_
    intro right other inRight inOther ordered pair row pair' row' same
    have texts := same.2
    rw [(ofRow row).2, (ofRow row').2] at texts
    exact ordered.2 (apart.texts (mem_of_right (of_mem_distinctLines inRight))
      (mem_of_right (of_mem_distinctLines inOther)) texts)
  · refine pairwise_distinctLines.imp_of_mem ?_
    intro left other inLeft inOther ordered pair member pair' member' same
    obtain ⟨right, -, row⟩ := List.mem_filterMap.mp member
    obtain ⟨right', -, row'⟩ := List.mem_filterMap.mp member'
    have texts := same.1
    rw [(ofRow row).1, (ofRow row').1] at texts
    exact ordered.2 (apart.texts (mem_of_left (of_mem_distinctLines inLeft))
      (mem_of_left (of_mem_distinctLines inOther)) texts)

end

theorem isNan_of_mem_comparableLines {pair : KeptLine}
    (member : pair ∈ comparableLines cosine digest a b vectors) :
    pair.similarity.isNan = false := by
  obtain ⟨left, -, member⟩ := List.mem_flatMap.mp member
  obtain ⟨right, -, row⟩ := List.mem_filterMap.mp member
  split at row
  · cases row
  next numbers =>
    obtain rfl := Option.some.inj row
    exact Bool.eq_false_iff.mpr fun isNan => numbers (.inr isNan)

theorem filter_lt_eq_linesAbove (isNumber : floor.isNan = false) :
    ((comparableLines cosine digest a b vectors).filter fun pair =>
      !(widen pair.similarity).lt floor) = linesAbove cosine digest a b vectors floor := by
  apply List.filter_congr
  intro pair member
  have widened := isNan_widen (isNan_of_mem_comparableLines member)
  rw [Binary.lt, Binary.le, widened, isNumber]
  simp only [Bool.not_false, Bool.true_and, ← decide_not, not_lt]

end Lines

/-- The first entries of a sorted list leave something out when there are more. -/
theorem left_out_iff {rows : List KeptLine} {limit : Nat} (apart : rows.Pairwise fun pair other =>
      ¬ (pair.hashA = other.hashA ∧ pair.hashB = other.hashB)) :
    ((rows.insertionSort KeptLine.Before).take limit).length < rows.length ↔
      ∃ pair ∈ rows, pair ∉ (rows.insertionSort KeptLine.Before).take limit := by
  have perm := List.perm_insertionSort KeptLine.Before rows
  have nodup : (rows.insertionSort KeptLine.Before).Nodup :=
    perm.nodup_iff.mpr (apart.imp fun differ same => differ (by rw [same]; exact ⟨rfl, rfl⟩))
  constructor
  · intro fewer
    rw [List.length_take, perm.length_eq] at fewer
    have inBounds : limit < (rows.insertionSort KeptLine.Before).length := by
      rw [perm.length_eq]
      omega
    refine ⟨(rows.insertionSort KeptLine.Before)[limit], perm.mem_iff.mp (List.getElem_mem _), ?_⟩
    intro inside
    obtain ⟨place, bound, same⟩ := List.mem_iff_getElem.mp inside
    rw [List.getElem_take] at same
    have places := (List.Nodup.getElem_inj_iff nodup).mp same
    rw [List.length_take] at bound
    omega
  · rintro ⟨pair, member, absent⟩
    by_contra all
    rw [← perm.length_eq] at all
    have whole : (rows.insertionSort KeptLine.Before).take limit =
        rows.insertionSort KeptLine.Before :=
      (List.take_sublist _ _).eq_of_length_le (Nat.not_lt.mp all)
    rw [whole] at absent
    exact absent (perm.mem_iff.mpr member)

/-- The line pairs a model reads are the best ones, for every floor that is a number. -/
theorem line_pairs_best {Component : Type} (cosine : List Component → List Component → F32)
    (digest : Text → Text) (a b : List FactObservation) (vectors : LineVectors Component)
    {floor : F64} (limit : Nat) (apart : Apart digest (a ++ b)) (number : floor.isNan = false) :
    BestLines cosine digest a b vectors floor limit := by
  have filtered : ((comparableLines cosine digest a b vectors).filter fun pair =>
      !(widen pair.similarity).lt floor) = linesAbove cosine digest a b vectors floor :=
    filter_lt_eq_linesAbove number
  have pairwise : (linesAbove cosine digest a b vectors floor).Pairwise fun pair other =>
      ¬ (pair.hashA = other.hashA ∧ pair.hashB = other.hashB) :=
    (pairwise_comparableLines apart).sublist List.filter_sublist
  refine ⟨linePairs_eq_none apart, ?_, ?_, ?_, ?_⟩
  · intro found answered
    rw [(linePairs_eq_some apart answered).1, filtered]
  · intro found answered
    rw [(linePairs_eq_some apart answered).2, filtered]
  · intro found answered
    rw [(linePairs_eq_some apart answered).1, filtered]
    refine List.Pairwise.sublist (List.take_sublist _ _) ?_
    refine (List.perm_insertionSort KeptLine.Before _).symm.pairwise pairwise ?_
    intro pair other differ same
    exact differ ⟨same.1.symm, same.2.symm⟩
  · intro found answered
    rw [LinePairs.capped, decide_eq_true_eq, (linePairs_eq_some apart answered).1,
      (linePairs_eq_some apart answered).2, filtered]
    exact left_out_iff pairwise

namespace Bullets

def one : F32 := ⟨false, 127 * 2 ^ 23, by decide⟩

/-- `0.0`, or `-0.0`. -/
def zero (negative : Bool) : F32 := ⟨negative, 0, by decide⟩

/-- The vectors of the lines are of one direction, but for two that are at right
angles to the first line's. -/
def cosine (left right : List Nat) : F32 :=
  if left ≠ [1] then one else if right = [2] then zero true else if right = [3] then zero false
  else one

def lines (texts : List Char) : List FactObservation := texts.map fun text => ⟨1, [text]⟩

def vectors : LineVectors Nat :=
  ((((AList.singleton ['a'] [1]).insert ['b'] [2]).insert ['c'] [3]).insert ['d'] [4])

theorem apart (observations : List FactObservation) : Apart id observations :=
  fun _ _ _ _ same => same

end Bullets

/-- The line read twice counts once, its own text on the other side is no pair, and of
three pairs the two best are kept. -/
theorem line_pairs_best_capped :
    linePairs Bullets.cosine id (Bullets.lines ['d', 'a', 'd']) (Bullets.lines ['b', 'd'])
        Bullets.vectors ⟨true, 0, by decide⟩ 2 =
      some ⟨[⟨0, 0, ['d'], ['b'], Bullets.one⟩, ⟨1, 1, ['a'], ['d'], Bullets.one⟩], 3⟩ ∧
    BestLines Bullets.cosine id (Bullets.lines ['d', 'a', 'd']) (Bullets.lines ['b', 'd'])
      Bullets.vectors ⟨true, 0, by decide⟩ 2 :=
  ⟨by decide, line_pairs_best Bullets.cosine id _ _ Bullets.vectors 2 (Bullets.apart _) (by decide)⟩

/-- No similarity is at or above a NaN floor, and a pair is kept; and of two equal
similarities the later one is kept where it is a positive zero and the other is not. -/
theorem line_pairs_nan_and_zeros :
    ¬ BestLines Bullets.cosine id (Bullets.lines ['a']) (Bullets.lines ['d']) Bullets.vectors
      quietNan 1 ∧
    linesAbove Bullets.cosine id (Bullets.lines ['a']) (Bullets.lines ['b', 'c']) Bullets.vectors
        ⟨true, 0, by decide⟩ =
      [⟨0, 0, ['a'], ['b'], Bullets.zero true⟩, ⟨0, 1, ['a'], ['c'], Bullets.zero false⟩] ∧
    (Bullets.zero true).le (Bullets.zero false) = true ∧
    (Bullets.zero false).le (Bullets.zero true) = true ∧
    linePairs Bullets.cosine id (Bullets.lines ['a']) (Bullets.lines ['b', 'c']) Bullets.vectors
      ⟨true, 0, by decide⟩ 1 = some ⟨[⟨0, 1, ['a'], ['c'], Bullets.zero false⟩], 2⟩ := by
  refine ⟨fun best => ?_, by decide, by decide, by decide, by decide⟩
  have answered : linePairs Bullets.cosine id (Bullets.lines ['a']) (Bullets.lines ['d'])
      Bullets.vectors quietNan 1 = some ⟨[⟨0, 0, ['a'], ['d'], Bullets.one⟩], 1⟩ := by decide
  have none : (linesAbove Bullets.cosine id (Bullets.lines ['a']) (Bullets.lines ['d'])
      Bullets.vectors quietNan).length = 0 := by decide
  have above := best.aboveFloor _ answered
  rw [none] at above
  cases above

end Crystalline.Nli
