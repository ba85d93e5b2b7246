import Mathlib.Data.List.Destutter
import Mathlib.Data.List.Sort
import Mathlib.Data.Prod.Lex
import Crystalline.Keyed.Table

/-!
# What each pass grants

Sorted by local name, domains with different local names come in one order only.
Over such a list each pass is a set of claims: the local names, the names one
domain alone declares, the aliases one domain alone lists.
-/

namespace Crystalline.Names

open Keyed

section

universe u

variable {Name : Type u}

/-- The names one registered domain brings to the table. -/
structure NameInput (Name : Type u) where
  localName : Name
  canonical : Option Name
  aliases : List Name
  deriving DecidableEq, Repr

/-- A canonical name claimed by more than one domain, none of them registered
under it. -/
structure NameConflict (Name : Type u) where
  name : Name
  claimants : List Name
  deriving DecidableEq, Repr

/-- An alias that does not resolve because its spelling is taken; nobody holds
it when no single domain owns the spelling. -/
structure DroppedAlias (Name : Type u) where
  domain : Name
  aliasName : Name
  heldBy : Option Name
  deriving DecidableEq, Repr

/-- Every spelling of every registered domain, resolved to its local name. -/
structure NameTable (Name : Type u) where
  spellings : AList fun _ : Name => Name
  canonicalOf : AList fun _ : Name => Name
  shadowed : List Name
  effectiveAliases : AList fun _ : Name => List Name
  conflicts : List (NameConflict Name)
  droppedAliases : List (DroppedAlias Name)

variable [LinearOrder Name] (valid : Name → Bool)

/-- The inputs by local name; of the inputs with one local name the first
counts. -/
def sortInputs (inputs : List (NameInput Name)) : List (NameInput Name) :=
  (inputs.insertionSort fun left right => left.localName ≤ right.localName).destutter
    fun left right => left.localName ≠ right.localName

/-- The name content carries for a domain: its declared name when that is a
valid one, else its local name. -/
def NameInput.declared (input : NameInput Name) : Name :=
  (input.canonical.filter valid).getD input.localName

/-- The domains that claim a name as canonical without being registered under
it, with the names they claim. -/
def canonicalClaims (sorted : List (NameInput Name)) : List (Name × Name) :=
  (sorted.map fun input => (input.declared valid, input.localName)).filter
    fun claim => claim.1 ≠ claim.2

/-- The domains that claim a name, in the order of their local names. -/
def claimantsOf (sorted : List (NameInput Name)) (name : Name) : List Name :=
  ((canonicalClaims valid sorted).filter fun claim => claim.1 = name).map Prod.snd

/-- The claims by claimed name, in the order of the names. -/
def claimsByName (sorted : List (NameInput Name)) : List (Name × List Name) :=
  (((canonicalClaims valid sorted).map Prod.fst).dedup.insertionSort (· ≤ ·)).map fun name =>
    (name, claimantsOf valid sorted name)

/-- The aliases of a domain, each once, without its own local and canonical
name. -/
def ownAliases (input : NameInput Name) : List Name :=
  input.aliases.foldl (fun own former =>
    if former = input.localName ∨ former = input.declared valid ∨ former ∈ own then own
    else own ++ [former]) []

/-- A map with the given entries added, a later one replacing an earlier one. -/
def extend {Value : Type*} (map : AList fun _ : Name => Value) (entries : List (Name × Value)) :
    AList fun _ : Name => Value :=
  entries.foldl (fun map entry => map.insert entry.1 entry.2) map

section Passes

variable (sorted : List (NameInput Name))

/-- The spellings of the first pass: every local name is its own. -/
def localSpellings : AList fun _ : Name => Name :=
  collect (sorted.map fun input => (input.localName, input.localName))

/-- The claims to names no domain is registered under. -/
def freeClaims : List (Name × List Name) :=
  (claimsByName valid sorted).filter fun claim => claim.1 ∉ localSpellings sorted

def shadowedDomains : List Name :=
  ((claimsByName valid sorted).filter fun claim => claim.1 ∈ localSpellings sorted).flatMap Prod.snd

def nameConflicts : List (NameConflict Name) :=
  ((freeClaims valid sorted).filter fun claim => 1 < claim.2.length).map fun claim =>
    { name := claim.1, claimants := claim.2 }

def grantedClaims : List (Name × Name) :=
  ((freeClaims valid sorted).filter fun claim => ¬ 1 < claim.2.length).filterMap fun claim =>
    claim.2.head?.map fun claimant => (claim.1, claimant)

/-- The spellings after the second pass. -/
def ownedSpellings : AList fun _ : Name => Name :=
  extend (localSpellings sorted) (grantedClaims valid sorted)

def listedAliases : List (Name × List Name) :=
  sorted.map fun input => (input.localName, ownAliases valid input)

/-- Who holds an alias that must be dropped: the owner of the spelling, or
nobody where the spelling is contested or shared.  Nothing where the alias can be
granted. -/
def heldBy (former : Name) : Option (Option Name) :=
  match (ownedSpellings valid sorted).lookup former with
  | some owner => some (some owner)
  | none =>
      if former ∈ (nameConflicts valid sorted).map NameConflict.name ∨
          1 < ((listedAliases valid sorted).flatMap Prod.snd).count former then
        some none
      else none

/-- The aliases of each domain that can be granted. -/
def keptAliases : List (Name × List Name) :=
  (listedAliases valid sorted).map fun entry =>
    (entry.1, entry.2.filter fun former => heldBy valid sorted former = none)

def lostAliases : List (DroppedAlias Name) :=
  (listedAliases valid sorted).flatMap fun entry => entry.2.filterMap fun former =>
    (heldBy valid sorted former).map fun holder =>
      { domain := entry.1, aliasName := former, heldBy := holder }

end Passes

namespace NameTable

/-- The table the three passes leave. -/
def assemble (sorted : List (NameInput Name)) : NameTable Name where
  spellings := extend (ownedSpellings valid sorted)
    ((keptAliases valid sorted).flatMap fun entry =>
      entry.2.map fun former => (former, entry.1))
  canonicalOf := collect (sorted.map fun input => (input.localName, input.declared valid))
  shadowed := shadowedDomains valid sorted
  effectiveAliases := collect (keptAliases valid sorted)
  conflicts := nameConflicts valid sorted
  droppedAliases := (lostAliases valid sorted).insertionSort fun left right =>
    toLex (left.domain, left.aliasName) ≤ toLex (right.domain, right.aliasName)

/-- Builds the table. -/
def build (inputs : List (NameInput Name)) : NameTable Name := assemble valid (sortInputs inputs)

variable (table : NameTable Name)

/-- The local name a spelling resolves to. -/
def resolve (spelling : Name) : Option Name := table.spellings.lookup spelling

/-- The canonical name of a domain, also where it does not resolve. -/
def canonical (localName : Name) : Option Name := table.canonicalOf.lookup localName

/-- Whether another domain is registered under the domain's canonical name. -/
def isShadowed (localName : Name) : Bool := localName ∈ table.shadowed

/-- The canonical name to write in place of a spelling. -/
def normalize (spelling : Name) : Option Name :=
  (table.resolve spelling).bind fun localName =>
    (table.canonical localName).bind fun canonical =>
      if canonical ≠ spelling ∧ table.resolve canonical = some localName then some canonical
      else none

end NameTable

end

universe u

section Lists

variable {α β : Type*}

/-- The only item of a list with a property. -/
structure Sole (claims : α → Prop) (items : List α) (item : α) : Prop where
  mem : item ∈ items
  holds : claims item
  only : ∀ other ∈ items, claims other → other = item

theorem Sole.perm {claims : α → Prop} {items others : List α} {item : α}
    (sole : Sole claims items item) (permutation : items.Perm others) : Sole claims others item :=
  ⟨permutation.mem_iff.mp sole.mem, sole.holds,
    fun other member => sole.only other (permutation.mem_iff.mpr member)⟩

variable {items : List α}

/-- Among lists without repetitions, an item comes twice exactly when two of the
lists hold it. -/
theorem one_lt_count_flatMap [DecidableEq β] {pick : α → List β} {wanted : β}
    (distinct : items.Nodup) (once : ∀ item ∈ items, (pick item).Nodup) :
    1 < (items.flatMap pick).count wanted ↔
      ∃ left ∈ items, ∃ right ∈ items, left ≠ right ∧ wanted ∈ pick left ∧ wanted ∈ pick right := by
  induction items with
  | nil => simp
  | cons item items induction =>
      rw [List.nodup_cons] at distinct
      have rest := induction distinct.2 fun other member => once other (List.mem_cons_of_mem _ member)
      have here := List.nodup_iff_count_le_one.mp (once item List.mem_cons_self) wanted
      have held : 0 < (pick item).count wanted ↔ wanted ∈ pick item := List.count_pos_iff
      have later : 0 < (items.flatMap pick).count wanted ↔ ∃ other ∈ items, wanted ∈ pick other := by
        rw [List.count_pos_iff, List.mem_flatMap]
      rw [List.flatMap_cons, List.count_append]
      constructor
      · intro twice
        by_cases inItem : wanted ∈ pick item
        · have positive : 0 < (items.flatMap pick).count wanted := by omega
          obtain ⟨other, member, inOther⟩ := later.mp positive
          exact ⟨item, List.mem_cons_self, other, List.mem_cons_of_mem _ member,
            fun same => distinct.1 (same ▸ member), inItem, inOther⟩
        · have zero := mt held.mp inItem
          have twiceLater : 1 < (items.flatMap pick).count wanted := by omega
          obtain ⟨left, leftIn, right, rightIn, different, both⟩ := rest.mp twiceLater
          exact ⟨left, List.mem_cons_of_mem _ leftIn, right, List.mem_cons_of_mem _ rightIn,
            different, both⟩
      · rintro ⟨left, leftIn, right, rightIn, different, inLeft, inRight⟩
        rcases List.mem_cons.mp leftIn with rfl | leftLater
        · rcases List.mem_cons.mp rightIn with rfl | rightLater
          · exact absurd rfl different
          · have one := held.mpr inLeft
            have two := later.mpr ⟨right, rightLater, inRight⟩
            omega
        · rcases List.mem_cons.mp rightIn with rfl | rightLater
          · have one := held.mpr inRight
            have two := later.mpr ⟨left, leftLater, inLeft⟩
            omega
          · have two := rest.mpr ⟨left, leftLater, right, rightLater, different, inLeft, inRight⟩
            omega

theorem head_of_short {item : α} :
    ¬ 1 < items.length ∧ items.head? = some item ↔ items = [item] := by
  cases items with
  | nil => simp
  | cons first items =>
      cases items with
      | nil => simp
      | cons second items => simp

end Lists

variable {Name : Type u} [LinearOrder Name] {valid : Name → Bool}

/-- No two domains are registered under one name. -/
def Distinct (inputs : List (NameInput Name)) : Prop := (inputs.map NameInput.localName).Nodup

instance (inputs : List (NameInput Name)) : Decidable (Distinct inputs) :=
  inferInstanceAs (Decidable (List.Nodup _))

/-- The domains in the strict order of their local names. -/
def Ascending (sorted : List (NameInput Name)) : Prop :=
  sorted.Pairwise fun left right => left.localName < right.localName

section Sorting

variable {inputs : List (NameInput Name)}

theorem sorted_perm (inputs : List (NameInput Name)) :
    (inputs.insertionSort fun left right => left.localName ≤ right.localName).Perm inputs :=
  List.perm_insertionSort _ _

section

variable (distinct : Distinct inputs)
include distinct

theorem ascending_insertionSort :
    Ascending (inputs.insertionSort fun left right => left.localName ≤ right.localName) := by
  have ordered : (inputs.insertionSort fun left right => left.localName ≤ right.localName).Pairwise
      fun left right => left.localName ≤ right.localName := by
    have total : Std.Total fun left right : NameInput Name =>
        left.localName ≤ right.localName := ⟨fun left right => le_total _ _⟩
    have transitive : IsTrans (NameInput Name) fun left right =>
        left.localName ≤ right.localName := ⟨fun _ _ _ => le_trans⟩
    exact List.pairwise_insertionSort _ inputs
  have different : (inputs.insertionSort fun left right =>
      left.localName ≤ right.localName).Pairwise
        fun left right => left.localName ≠ right.localName :=
    List.pairwise_map.mp ((sorted_perm inputs).map NameInput.localName |>.nodup_iff.mpr distinct)
  exact (ordered.and different).imp fun both => lt_of_le_of_ne both.1 both.2

theorem sortInputs_eq :
    sortInputs inputs =
      inputs.insertionSort fun left right => left.localName ≤ right.localName := by
  unfold sortInputs
  exact List.destutter_of_isChain _ _ ((ascending_insertionSort distinct).imp ne_of_lt).isChain

theorem perm_sortInputs : (sortInputs inputs).Perm inputs := by
  rw [sortInputs_eq distinct]
  exact sorted_perm inputs

theorem ascending_sortInputs : Ascending (sortInputs inputs) := by
  rw [sortInputs_eq distinct]
  exact ascending_insertionSort distinct

end

theorem sortInputs_perm {others : List (NameInput Name)} (distinct : Distinct inputs)
    (permutation : inputs.Perm others) : sortInputs inputs = sortInputs others := by
  have distinctOthers : Distinct others := (permutation.map _).nodup_iff.mp distinct
  have same : (sortInputs inputs).Perm (sortInputs others) :=
    ((perm_sortInputs distinct).trans permutation).trans (perm_sortInputs distinctOthers).symm
  exact same.eq_of_pairwise (fun left right _ _ less more => absurd more (lt_asymm less))
    (ascending_sortInputs distinct) (ascending_sortInputs distinctOthers)

end Sorting

section Passes

variable {sorted : List (NameInput Name)}

theorem Ascending.distinct (ascending : Ascending sorted) : Distinct sorted :=
  List.pairwise_map.mpr (ascending.imp ne_of_lt)

theorem Ascending.eq_of_localName (ascending : Ascending sorted) {left right : NameInput Name}
    (leftIn : left ∈ sorted) (rightIn : right ∈ sorted)
    (same : left.localName = right.localName) : left = right :=
  List.inj_on_of_nodup_map ascending.distinct leftIn rightIn same

/-- Some domain is registered under the name. -/
def IsLocal (inputs : List (NameInput Name)) (name : Name) : Prop :=
  ∃ input ∈ inputs, input.localName = name

variable {spelling owner : Name}

theorem lookup_localSpellings (ascending : Ascending sorted) :
    (localSpellings sorted).lookup spelling = some owner ↔
      IsLocal sorted spelling ∧ owner = spelling := by
  have distinct : ((sorted.map fun input => (input.localName, input.localName)).map
      Prod.fst).Nodup := by
    rw [List.map_map]
    exact ascending.distinct
  rw [localSpellings, lookup_collect distinct, List.mem_map]
  constructor
  · rintro ⟨input, member, same⟩
    obtain ⟨rfl, rfl⟩ := Prod.mk.inj same
    exact ⟨⟨input, member, rfl⟩, rfl⟩
  · rintro ⟨⟨input, member, rfl⟩, rfl⟩
    exact ⟨input, member, rfl⟩

theorem mem_localSpellings (ascending : Ascending sorted) {spelling : Name} :
    spelling ∈ localSpellings sorted ↔ IsLocal sorted spelling := by
  rw [← AList.lookup_isSome, Option.isSome_iff_exists]
  constructor
  · rintro ⟨owner, found⟩
    exact ((lookup_localSpellings ascending).mp found).1
  · intro registered
    exact ⟨spelling, (lookup_localSpellings ascending).mpr ⟨registered, rfl⟩⟩

variable {name claimant : Name}

theorem mem_canonicalClaims :
    (name, claimant) ∈ canonicalClaims valid sorted ↔
      ∃ input ∈ sorted, input.declared valid = name ∧ input.localName = claimant ∧
        claimant ≠ name := by
  rw [canonicalClaims, List.mem_filter, List.mem_map]
  constructor
  · rintro ⟨⟨input, member, same⟩, different⟩
    obtain ⟨rfl, rfl⟩ := Prod.mk.inj same
    exact ⟨input, member, rfl, rfl, Ne.symm (by simpa using different)⟩
  · rintro ⟨input, member, rfl, rfl, different⟩
    exact ⟨⟨input, member, rfl⟩, by simpa using Ne.symm different⟩

theorem mem_claimantsOf :
    claimant ∈ claimantsOf valid sorted name ↔
      ∃ input ∈ sorted, input.declared valid = name ∧ input.localName = claimant ∧
        claimant ≠ name := by
  rw [← mem_canonicalClaims, claimantsOf, List.mem_map]
  constructor
  · rintro ⟨⟨claimed, other⟩, member, rfl⟩
    obtain ⟨held, same⟩ := List.mem_filter.mp member
    obtain rfl : claimed = name := by simpa using same
    exact held
  · intro member
    exact ⟨(name, claimant), List.mem_filter.mpr ⟨member, by simp⟩, rfl⟩

theorem pairwise_claimantsOf (ascending : Ascending sorted) (name : Name) :
    (claimantsOf valid sorted name).Pairwise (· < ·) := by
  unfold claimantsOf canonicalClaims
  rw [List.pairwise_map]
  refine List.Pairwise.filter _ (List.Pairwise.filter _ ?_)
  exact List.pairwise_map.mpr ascending

theorem pairwise_claimsByName :
    ((claimsByName valid sorted).map Prod.fst).Pairwise (· < ·) := by
  have ordered : (((canonicalClaims valid sorted).map Prod.fst).dedup.insertionSort
      (· ≤ ·)).Pairwise (· ≤ ·) := List.pairwise_insertionSort _ _
  have different : (((canonicalClaims valid sorted).map Prod.fst).dedup.insertionSort
      (· ≤ ·)).Nodup := (List.perm_insertionSort _ _).nodup_iff.mpr (List.nodup_dedup _)
  unfold claimsByName
  rw [List.map_map]
  change (List.map id _).Pairwise _
  rw [List.map_id]
  exact (ordered.and different).imp fun both => lt_of_le_of_ne both.1 both.2

theorem mem_claimsByName {name : Name} {claimants : List Name} :
    (name, claimants) ∈ claimsByName valid sorted ↔
      claimants = claimantsOf valid sorted name ∧ claimants ≠ [] := by
  have claimed : name ∈ ((canonicalClaims valid sorted).map Prod.fst).dedup.insertionSort
      (· ≤ ·) ↔ claimantsOf valid sorted name ≠ [] := by
    rw [List.mem_insertionSort, List.mem_dedup, List.mem_map, List.ne_nil_iff_exists_cons]
    constructor
    · rintro ⟨⟨claimed, claimant⟩, member, rfl⟩
      have held := mem_claimantsOf.mpr (mem_canonicalClaims.mp member)
      exact List.exists_cons_of_ne_nil (List.ne_nil_of_mem held)
    · rintro ⟨claimant, rest, shape⟩
      have held : claimant ∈ claimantsOf valid sorted name := shape ▸ List.mem_cons_self
      exact ⟨(name, claimant), mem_canonicalClaims.mpr (mem_claimantsOf.mp held), rfl⟩
  rw [claimsByName, List.mem_map]
  constructor
  · rintro ⟨other, member, same⟩
    obtain ⟨rfl, rfl⟩ := Prod.mk.inj same
    exact ⟨rfl, claimed.mp member⟩
  · rintro ⟨rfl, some⟩
    exact ⟨name, claimed.mpr some, rfl⟩

/-- Away from the local names the claimants are the domains declaring the
name. -/
theorem mem_claimantsOf_free (free : ¬ IsLocal sorted name) :
    claimant ∈ claimantsOf valid sorted name ↔
      ∃ input ∈ sorted, input.declared valid = name ∧ input.localName = claimant := by
  rw [mem_claimantsOf]
  constructor
  · rintro ⟨input, member, declares, rfl, -⟩
    exact ⟨input, member, declares, rfl⟩
  · rintro ⟨input, member, declares, rfl⟩
    exact ⟨input, member, declares, rfl, fun same => free ⟨input, member, same⟩⟩

section

variable (ascending : Ascending sorted)
include ascending

theorem mem_freeClaims {name : Name} {claimants : List Name} :
    (name, claimants) ∈ freeClaims valid sorted ↔
      (claimants = claimantsOf valid sorted name ∧ claimants ≠ []) ∧ ¬ IsLocal sorted name := by
  rw [freeClaims, List.mem_filter, mem_claimsByName, decide_eq_true_iff,
    mem_localSpellings ascending]

theorem mem_grantedClaims :
    (name, claimant) ∈ grantedClaims valid sorted ↔
      ¬ IsLocal sorted name ∧ claimantsOf valid sorted name = [claimant] := by
  rw [grantedClaims, List.mem_filterMap]
  constructor
  · rintro ⟨⟨other, claimants⟩, member, granted⟩
    obtain ⟨free, short⟩ := List.mem_filter.mp member
    obtain ⟨first, head, same⟩ := Option.map_eq_some_iff.mp granted
    obtain ⟨rfl, rfl⟩ := Prod.mk.inj same
    obtain ⟨⟨rfl, -⟩, notLocal⟩ := (mem_freeClaims ascending).mp free
    exact ⟨notLocal, head_of_short.mp ⟨by simpa using short, head⟩⟩
  · rintro ⟨notLocal, only⟩
    refine ⟨(name, claimantsOf valid sorted name), List.mem_filter.mpr ⟨?_, ?_⟩, ?_⟩
    · exact (mem_freeClaims ascending).mpr ⟨⟨rfl, by simp [only]⟩, notLocal⟩
    · simp [only]
    · simp [only]

theorem mem_nameConflicts {conflict : NameConflict Name} :
    conflict ∈ nameConflicts valid sorted ↔
      ¬ IsLocal sorted conflict.name ∧ conflict.claimants = claimantsOf valid sorted conflict.name ∧
        1 < conflict.claimants.length := by
  rw [nameConflicts, List.mem_map]
  constructor
  · rintro ⟨⟨name, claimants⟩, member, rfl⟩
    obtain ⟨free, long⟩ := List.mem_filter.mp member
    obtain ⟨⟨shape, -⟩, notLocal⟩ := (mem_freeClaims ascending).mp free
    exact ⟨notLocal, shape, by simpa using long⟩
  · rintro ⟨notLocal, shape, long⟩
    have some : conflict.claimants ≠ [] := List.ne_nil_of_length_pos (by omega)
    exact ⟨(conflict.name, conflict.claimants), List.mem_filter.mpr
      ⟨(mem_freeClaims ascending).mpr ⟨⟨shape, some⟩, notLocal⟩, by simpa using long⟩, rfl⟩

theorem mem_shadowedDomains {domain : Name} :
    domain ∈ shadowedDomains valid sorted ↔
      ∃ input ∈ sorted, input.localName = domain ∧ input.declared valid ≠ input.localName ∧
        IsLocal sorted (input.declared valid) := by
  rw [shadowedDomains, List.mem_flatMap]
  constructor
  · rintro ⟨⟨name, claimants⟩, member, among⟩
    obtain ⟨claim, registered⟩ := List.mem_filter.mp member
    obtain ⟨rfl, -⟩ := mem_claimsByName.mp claim
    obtain ⟨input, inputIn, rfl, rfl, different⟩ := mem_claimantsOf.mp among
    rw [decide_eq_true_iff, mem_localSpellings ascending] at registered
    exact ⟨input, inputIn, rfl, different.symm, registered⟩
  · rintro ⟨input, inputIn, rfl, different, registered⟩
    have among : input.localName ∈ claimantsOf valid sorted (input.declared valid) :=
      mem_claimantsOf.mpr ⟨input, inputIn, rfl, rfl, different.symm⟩
    refine ⟨(input.declared valid, _), List.mem_filter.mpr ⟨?_, ?_⟩, among⟩
    · exact mem_claimsByName.mpr ⟨rfl, List.ne_nil_of_mem among⟩
    · rwa [decide_eq_true_iff, mem_localSpellings ascending]

end

theorem distinct_grantedClaims : ((grantedClaims valid sorted).map Prod.fst).Nodup := by
  have keys : ((grantedClaims valid sorted).map Prod.fst).Sublist
      ((claimsByName valid sorted).map Prod.fst) := by
    have part : ((freeClaims valid sorted).filter fun claim => ¬ 1 < claim.2.length).Sublist
        (claimsByName valid sorted) := List.filter_sublist.trans List.filter_sublist
    refine List.Sublist.trans ?_ (part.map Prod.fst)
    unfold grantedClaims
    generalize (freeClaims valid sorted).filter (fun claim => ¬ 1 < claim.2.length) = claims
    induction claims with
    | nil => simp
    | cons claim claims induction =>
        cases head : claim.2.head? with
        | none => simpa [List.filterMap_cons, head] using induction.cons _
        | some first => simpa [List.filterMap_cons, head] using induction
  exact (pairwise_claimsByName.imp ne_of_lt).sublist keys

theorem lookup_ownedSpellings (ascending : Ascending sorted) :
    (ownedSpellings valid sorted).lookup spelling = some owner ↔
      IsLocal sorted spelling ∧ owner = spelling ∨
      ¬ IsLocal sorted spelling ∧ claimantsOf valid sorted spelling = [owner] := by
  rw [ownedSpellings, extend, lookup_foldl_insert _ _ _ distinct_grantedClaims,
    mem_grantedClaims ascending, lookup_localSpellings ascending]
  constructor
  · rintro (granted | ⟨-, registered⟩)
    · exact .inr granted
    · exact .inl registered
  · rintro (registered | granted)
    · refine .inr ⟨fun member => ?_, registered⟩
      obtain ⟨claim, claimIn, rfl⟩ := List.mem_map.mp member
      exact ((mem_grantedClaims ascending).mp claimIn).1 registered.1
    · exact .inl granted

end Passes

section Aliases

variable {sorted : List (NameInput Name)} {former : Name}

theorem mem_ownAliases {input : NameInput Name} :
    former ∈ ownAliases valid input ↔
      former ∈ input.aliases ∧ former ≠ input.localName ∧ former ≠ input.declared valid := by
  have grown : ∀ (aliases own : List Name),
      former ∈ aliases.foldl (fun own former =>
        if former = input.localName ∨ former = input.declared valid ∨ former ∈ own then own
        else own ++ [former]) own ↔
      former ∈ own ∨ former ∈ aliases ∧ former ≠ input.localName ∧
        former ≠ input.declared valid := by
    intro aliases
    induction aliases with
    | nil => simp
    | cons first aliases induction =>
        intro own
        rw [List.foldl_cons, induction]
        by_cases same : former = first
        · subst same
          split <;> grind
        · split <;> simp [same]
  unfold ownAliases
  rw [grown]
  simp

theorem nodup_ownAliases (input : NameInput Name) : (ownAliases valid input).Nodup := by
  have grown : ∀ (aliases own : List Name), own.Nodup →
      (aliases.foldl (fun own former =>
        if former = input.localName ∨ former = input.declared valid ∨ former ∈ own then own
        else own ++ [former]) own).Nodup := by
    intro aliases
    induction aliases with
    | nil => exact fun own distinct => distinct
    | cons first aliases induction =>
        intro own distinct
        rw [List.foldl_cons]
        split
        · exact induction own distinct
        · next fresh =>
            rw [not_or, not_or] at fresh
            exact induction _ (List.Nodup.append distinct (List.nodup_singleton _)
              (List.disjoint_singleton.mpr fresh.2.2))
  exact grown input.aliases [] List.nodup_nil

/-- Two domains list the alias. -/
def Shared (valid : Name → Bool) (sorted : List (NameInput Name)) (former : Name) : Prop :=
  ∃ left ∈ sorted, ∃ right ∈ sorted, left ≠ right ∧
    former ∈ ownAliases valid left ∧ former ∈ ownAliases valid right

theorem one_lt_count_listed (ascending : Ascending sorted) :
    1 < ((listedAliases valid sorted).flatMap Prod.snd).count former ↔
      Shared valid sorted former := by
  rw [listedAliases, List.flatMap_map]
  exact one_lt_count_flatMap (List.Nodup.of_map _ ascending.distinct)
    fun input _ => nodup_ownAliases input

theorem contested_iff (ascending : Ascending sorted) {name : Name} :
    name ∈ (nameConflicts valid sorted).map NameConflict.name ↔
      ¬ IsLocal sorted name ∧ 1 < (claimantsOf valid sorted name).length := by
  rw [List.mem_map]
  constructor
  · rintro ⟨conflict, member, rfl⟩
    obtain ⟨free, shape, long⟩ := (mem_nameConflicts ascending).mp member
    exact ⟨free, shape ▸ long⟩
  · rintro ⟨free, long⟩
    exact ⟨⟨name, claimantsOf valid sorted name⟩, (mem_nameConflicts ascending).mpr
      ⟨free, rfl, long⟩, rfl⟩

/-- Nobody is registered under the name and nobody declares it. -/
def Unclaimed (valid : Name → Bool) (sorted : List (NameInput Name)) (name : Name) : Prop :=
  ¬ IsLocal sorted name ∧ ∀ input ∈ sorted, input.declared valid ≠ name

theorem unclaimed_iff {name : Name} :
    Unclaimed valid sorted name ↔ ¬ IsLocal sorted name ∧ claimantsOf valid sorted name = [] := by
  constructor
  · rintro ⟨free, undeclared⟩
    refine ⟨free, List.eq_nil_iff_forall_not_mem.mpr fun claimant among => ?_⟩
    obtain ⟨input, member, declares, -⟩ := (mem_claimantsOf_free free).mp among
    exact undeclared input member declares
  · rintro ⟨free, nobody⟩
    refine ⟨free, fun input member declares => ?_⟩
    have among := (mem_claimantsOf_free free).mpr ⟨input, member, declares, rfl⟩
    rw [nobody] at among
    cases among

theorem lookup_owned_eq_none (ascending : Ascending sorted) {name : Name} :
    (ownedSpellings valid sorted).lookup name = none ↔
      ¬ IsLocal sorted name ∧ (claimantsOf valid sorted name).length ≠ 1 := by
  rw [Option.eq_none_iff_forall_ne_some]
  constructor
  · intro missing
    have free : ¬ IsLocal sorted name := fun registered =>
      missing name ((lookup_ownedSpellings ascending).mpr (.inl ⟨registered, rfl⟩))
    refine ⟨free, fun single => ?_⟩
    obtain ⟨claimant, shape⟩ := List.length_eq_one_iff.mp single
    exact missing claimant ((lookup_ownedSpellings ascending).mpr (.inr ⟨free, shape⟩))
  · rintro ⟨free, several⟩ owner found
    rcases (lookup_ownedSpellings ascending).mp found with ⟨registered, -⟩ | ⟨-, single⟩
    · exact free registered
    · exact several (by rw [single]; rfl)

/-- An alias is granted when nothing above the aliases claims its spelling and
no second domain lists it. -/
theorem heldBy_eq_none (ascending : Ascending sorted) :
    heldBy valid sorted former = none ↔
      Unclaimed valid sorted former ∧ ¬ Shared valid sorted former := by
  rw [unclaimed_iff, ← one_lt_count_listed ascending]
  unfold heldBy
  cases found : (ownedSpellings valid sorted).lookup former with
  | some owner =>
      refine ⟨fun impossible => (by cases impossible), fun ⟨free, _⟩ => ?_⟩
      rcases (lookup_ownedSpellings ascending).mp found with ⟨registered, -⟩ | ⟨-, single⟩
      · exact absurd registered free.1
      · rw [free.2] at single
        cases single
  | none =>
      obtain ⟨free, several⟩ := (lookup_owned_eq_none ascending).mp found
      have contested := @contested_iff _ _ valid _ ascending former
      rw [← List.length_eq_zero_iff]
      dsimp only
      split
      · next taken =>
          refine ⟨fun impossible => (by cases impossible), fun ⟨unclaimed, alone⟩ => ?_⟩
          have long := (contested.mp (taken.resolve_right alone)).2
          omega
      · next granted =>
          rw [not_or, contested, not_and] at granted
          have short := granted.1 free
          exact ⟨fun _ => ⟨⟨free, by omega⟩, granted.2⟩, fun _ => rfl⟩

theorem mem_keptAliases {former owner : Name} :
    (former, owner) ∈ ((keptAliases valid sorted).flatMap fun entry =>
        entry.2.map fun former => (former, entry.1)) ↔
      ∃ input ∈ sorted, input.localName = owner ∧ former ∈ ownAliases valid input ∧
        heldBy valid sorted former = none := by
  rw [keptAliases, listedAliases, List.map_map, List.flatMap_map, List.mem_flatMap]
  constructor
  · rintro ⟨input, member, among⟩
    obtain ⟨other, kept, same⟩ := List.mem_map.mp among
    obtain ⟨rfl, rfl⟩ := Prod.mk.inj same
    obtain ⟨own, granted⟩ := List.mem_filter.mp kept
    exact ⟨input, member, rfl, own, by simpa using granted⟩
  · rintro ⟨input, member, rfl, own, granted⟩
    exact ⟨input, member, List.mem_map.mpr
      ⟨former, List.mem_filter.mpr ⟨own, by simpa using granted⟩, rfl⟩⟩

theorem distinct_keptAliases (ascending : Ascending sorted) :
    (((keptAliases valid sorted).flatMap fun entry =>
      entry.2.map fun former => (former, entry.1)).map Prod.fst).Nodup := by
  have shape : ((keptAliases valid sorted).flatMap fun entry =>
      entry.2.map fun former => (former, entry.1)).map Prod.fst =
        (sorted.flatMap (ownAliases valid)).filter
          fun former => heldBy valid sorted former = none := by
    rw [keptAliases, listedAliases, List.map_map, List.flatMap_map, List.map_flatMap,
      List.filter_flatMap]
    congr 1
    funext input
    simp [Function.comp_def]
  rw [shape, List.nodup_iff_count_le_one]
  intro former
  by_cases granted : heldBy valid sorted former = none
  · have alone := ((heldBy_eq_none ascending).mp granted).2
    rw [← one_lt_count_listed ascending, listedAliases, List.flatMap_map, Nat.not_lt] at alone
    exact Nat.le_trans (List.filter_sublist.count_le former) alone
  · have absent : former ∉ (sorted.flatMap (ownAliases valid)).filter
        fun former => heldBy valid sorted former = none := by simp [granted]
    rw [List.count_eq_zero_of_not_mem absent]
    exact Nat.zero_le 1

end Aliases

end Crystalline.Names
