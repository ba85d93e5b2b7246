import Mathlib.Data.Char
import Crystalline.Names.DomainName
import Crystalline.Names.Precedence

/-!
# Whom a spelling means

`Owns` says which domain a spelling means by looking at all the domains at once:
the one registered under it, else the only one that declares it, else the only
one that lists it.  The passes of the table give exactly that, and every claim
that lost is in one of the table's three reports.
-/

namespace Crystalline.Names

open Keyed

universe u

variable {Name : Type u} [LinearOrder Name] {valid : Name → Bool}

/-- Whom a spelling means: the domain registered under it, else the only domain
that declares it, else, where nobody declares it, the only domain that lists it. -/
def Owns (valid : Name → Bool) (inputs : List (NameInput Name)) (spelling owner : Name) : Prop :=
  IsLocal inputs spelling ∧ owner = spelling ∨
  ¬ IsLocal inputs spelling ∧
    ((∃ input, Sole (fun input => input.declared valid = spelling) inputs input ∧
        owner = input.localName) ∨
      (∀ input ∈ inputs, input.declared valid ≠ spelling) ∧
        ∃ input, Sole (fun input => spelling ∈ input.aliases) inputs input ∧
          owner = input.localName)

section Resolving

variable {sorted : List (NameInput Name)}

theorem claimantsOf_eq_singleton (ascending : Ascending sorted) {name claimant : Name}
    (free : ¬ IsLocal sorted name) :
    claimantsOf valid sorted name = [claimant] ↔
      ∃ input, Sole (fun input => input.declared valid = name) sorted input ∧
        claimant = input.localName := by
  constructor
  · intro single
    have among : claimant ∈ claimantsOf valid sorted name := single ▸ List.mem_cons_self
    obtain ⟨input, member, declares, rfl⟩ := (mem_claimantsOf_free free).mp among
    refine ⟨input, ⟨member, declares, fun other otherIn otherDeclares => ?_⟩, rfl⟩
    have also := (mem_claimantsOf_free free).mpr ⟨other, otherIn, otherDeclares, rfl⟩
    rw [single, List.mem_singleton] at also
    exact ascending.eq_of_localName otherIn member also
  · rintro ⟨input, sole, rfl⟩
    have among := (mem_claimantsOf_free free).mpr ⟨input, sole.mem, sole.holds, rfl⟩
    have distinct : (claimantsOf valid sorted name).Nodup :=
      (pairwise_claimantsOf ascending name).imp ne_of_lt
    refine ((List.perm_ext_iff_of_nodup distinct (List.nodup_singleton _)).mpr
      fun other => ⟨fun held => ?_, fun held => ?_⟩).eq_singleton
    · obtain ⟨second, secondIn, declares, rfl⟩ := (mem_claimantsOf_free free).mp held
      rw [sole.only second secondIn declares]
      exact List.mem_cons_self
    · rwa [List.mem_singleton.mp held]

variable {spelling owner : Name}

theorem resolve_iff (ascending : Ascending sorted) :
    (NameTable.assemble valid sorted).resolve spelling = some owner ↔
      (∃ input ∈ sorted, input.localName = owner ∧ spelling ∈ ownAliases valid input ∧
        heldBy valid sorted spelling = none) ∨
      (ownedSpellings valid sorted).lookup spelling = some owner := by
  unfold NameTable.resolve NameTable.assemble
  dsimp only
  rw [extend, lookup_foldl_insert _ _ _ (distinct_keptAliases ascending), mem_keptAliases]
  constructor
  · rintro (granted | ⟨-, owned⟩)
    · exact .inl granted
    · exact .inr owned
  · rintro (granted | owned)
    · exact .inl granted
    · refine .inr ⟨fun member => ?_, owned⟩
      obtain ⟨entry, entryIn, rfl⟩ := List.mem_map.mp member
      obtain ⟨input, -, -, -, granted⟩ := mem_keptAliases.mp entryIn
      have unclaimed := ((heldBy_eq_none ascending).mp granted).1
      rcases (lookup_ownedSpellings ascending).mp owned with ⟨registered, -⟩ | ⟨free, single⟩
      · exact unclaimed.1 registered
      · rw [(unclaimed_iff.mp unclaimed).2] at single
        cases single

/-- Only one domain lists a spelling that nobody claims: its own aliases are all
it takes. -/
theorem sole_lister_iff (unclaimed : Unclaimed valid sorted spelling) :
    (∃ input ∈ sorted, input.localName = owner ∧ spelling ∈ ownAliases valid input ∧
        ¬ Shared valid sorted spelling) ↔
      ∃ input, Sole (fun input => spelling ∈ input.aliases) sorted input ∧
        owner = input.localName := by
  have own : ∀ input ∈ sorted, (spelling ∈ ownAliases valid input ↔ spelling ∈ input.aliases) := by
    intro input member
    rw [mem_ownAliases]
    exact ⟨And.left, fun listed => ⟨listed, fun same => unclaimed.1 ⟨input, member, same.symm⟩,
      fun same => unclaimed.2 input member same.symm⟩⟩
  constructor
  · rintro ⟨input, member, rfl, listed, alone⟩
    refine ⟨input, ⟨member, (own input member).mp listed, fun other otherIn otherLists => ?_⟩, rfl⟩
    by_contra different
    exact alone ⟨other, otherIn, input, member, different,
      (own other otherIn).mpr otherLists, listed⟩
  · rintro ⟨input, sole, rfl⟩
    refine ⟨input, sole.mem, rfl, (own input sole.mem).mpr sole.holds, ?_⟩
    rintro ⟨left, leftIn, right, rightIn, different, leftLists, rightLists⟩
    exact different ((sole.only left leftIn ((own left leftIn).mp leftLists)).trans
      (sole.only right rightIn ((own right rightIn).mp rightLists)).symm)

section

variable (ascending : Ascending sorted)
include ascending

theorem resolve_assemble :
    (NameTable.assemble valid sorted).resolve spelling = some owner ↔
      Owns valid sorted spelling owner := by
  rw [resolve_iff ascending, lookup_ownedSpellings ascending]
  unfold Owns
  constructor
  · rintro (⟨input, member, here, listed, granted⟩ | registered | ⟨free, single⟩)
    · obtain ⟨unclaimed, alone⟩ := (heldBy_eq_none ascending).mp granted
      exact .inr ⟨unclaimed.1, .inr ⟨unclaimed.2,
        (sole_lister_iff unclaimed).mp ⟨input, member, here, listed, alone⟩⟩⟩
    · exact .inl registered
    · exact .inr ⟨free, .inl ((claimantsOf_eq_singleton ascending free).mp single)⟩
  · rintro (registered | ⟨free, declarer | ⟨undeclared, lister⟩⟩)
    · exact .inr (.inl registered)
    · exact .inr (.inr ⟨free, (claimantsOf_eq_singleton ascending free).mpr declarer⟩)
    · have unclaimed : Unclaimed valid sorted spelling := ⟨free, undeclared⟩
      obtain ⟨input, member, here, listed, alone⟩ := (sole_lister_iff unclaimed).mpr lister
      exact .inl ⟨input, member, here, listed,
        (heldBy_eq_none ascending).mpr ⟨unclaimed, alone⟩⟩

/-- An alias that was dropped resolves to whoever holds its spelling. -/
theorem resolve_of_held {former : Name} {holder : Option Name}
    (held : heldBy valid sorted former = some holder) :
    (NameTable.assemble valid sorted).resolve former = holder := by
  have owned : (ownedSpellings valid sorted).lookup former = holder := by
    unfold heldBy at held
    cases found : (ownedSpellings valid sorted).lookup former with
    | some owner =>
        rw [found] at held
        exact Option.some.inj held
    | none =>
        rw [found] at held
        dsimp only at held
        split at held
        · exact Option.some.inj held
        · cases held
  rw [← owned]
  refine Option.ext fun owner => ?_
  rw [resolve_iff ascending]
  constructor
  · rintro (⟨-, -, -, -, granted⟩ | owned)
    · rw [held] at granted
      cases granted
    · exact owned
  · exact .inr

/-- A dropped alias is one of a domain's own that means another domain, or
none. -/
theorem mem_lostAliases {dropped : DroppedAlias Name} :
    dropped ∈ lostAliases valid sorted ↔
      ∃ input ∈ sorted, dropped.domain = input.localName ∧
        dropped.aliasName ∈ ownAliases valid input ∧
        (NameTable.assemble valid sorted).resolve dropped.aliasName ≠ some input.localName ∧
        dropped.heldBy = (NameTable.assemble valid sorted).resolve dropped.aliasName := by
  rw [lostAliases, listedAliases, List.flatMap_map, List.mem_flatMap]
  constructor
  · rintro ⟨input, member, lost⟩
    obtain ⟨former, own, found⟩ := List.mem_filterMap.mp lost
    obtain ⟨holder, held, rfl⟩ := Option.map_eq_some_iff.mp found
    have means := resolve_of_held ascending held
    refine ⟨input, member, rfl, own, fun mine => ?_, means.symm⟩
    rcases (resolve_iff ascending).mp mine with ⟨-, -, -, -, granted⟩ | owned
    · rw [held] at granted
      cases granted
    · obtain ⟨-, notLocal, notDeclared⟩ := mem_ownAliases.mp own
      rcases (lookup_ownedSpellings ascending).mp owned with ⟨-, same⟩ | ⟨free, single⟩
      · exact notLocal same.symm
      · obtain ⟨declarer, sole, same⟩ := (claimantsOf_eq_singleton ascending free).mp single
        obtain rfl := ascending.eq_of_localName member sole.mem same
        exact notDeclared sole.holds.symm
  · rintro ⟨input, member, domain, own, elsewhere, holder⟩
    refine ⟨input, member, List.mem_filterMap.mpr ⟨dropped.aliasName, own, ?_⟩⟩
    cases held : heldBy valid sorted dropped.aliasName with
    | none =>
        exact absurd ((resolve_iff ascending).mpr (.inl ⟨input, member, rfl, own, held⟩)) elsewhere
    | some found =>
        rw [resolve_of_held ascending held] at holder
        subst holder
        rw [Option.map_some, ← domain]

theorem distinct_lostAliases : (lostAliases valid sorted).Nodup := by
  rw [lostAliases, listedAliases, List.flatMap_map, List.nodup_flatMap]
  constructor
  · intro input _
    refine (nodup_ownAliases input).filterMap fun former other dropped left right => ?_
    obtain ⟨_, -, rfl⟩ := Option.map_eq_some_iff.mp left
    obtain ⟨_, -, same⟩ := Option.map_eq_some_iff.mp right
    exact (congrArg DroppedAlias.aliasName same).symm
  · refine ascending.imp fun {left right} less => List.disjoint_left.mpr fun dropped inLeft inRight => ?_
    obtain ⟨_, -, found⟩ := List.mem_filterMap.mp inLeft
    obtain ⟨_, -, rfl⟩ := Option.map_eq_some_iff.mp found
    obtain ⟨_, -, again⟩ := List.mem_filterMap.mp inRight
    obtain ⟨_, -, same⟩ := Option.map_eq_some_iff.mp again
    exact absurd (congrArg DroppedAlias.domain same).symm (ne_of_lt less)

end

end Resolving

/-- What the three reports hold: the names several domains claim, the domains
whose name another one is registered under, and the aliases that mean another
domain or none.  A domain's claim to a canonical name was lost exactly when the
first two reports say so. -/
structure Reports (valid : Name → Bool) (inputs : List (NameInput Name))
    (table : NameTable Name) : Prop where
  conflicts : ∀ conflict, conflict ∈ table.conflicts ↔
    ¬ IsLocal inputs conflict.name ∧ 1 < conflict.claimants.length ∧
      conflict.claimants.Pairwise (· < ·) ∧
      ∀ claimant, claimant ∈ conflict.claimants ↔
        ∃ input ∈ inputs, input.declared valid = conflict.name ∧ input.localName = claimant
  conflictsInOrder : (table.conflicts.map NameConflict.name).Pairwise (· < ·)
  shadowed : ∀ domain, table.isShadowed domain = true ↔
    ∃ input ∈ inputs, input.localName = domain ∧ input.declared valid ≠ input.localName ∧
      IsLocal inputs (input.declared valid)
  lost : ∀ input ∈ inputs, table.resolve (input.declared valid) ≠ some input.localName ↔
    table.isShadowed input.localName = true ∨
      ∃ conflict ∈ table.conflicts,
        conflict.name = input.declared valid ∧ input.localName ∈ conflict.claimants
  dropped : ∀ dropped, dropped ∈ table.droppedAliases ↔
    ∃ input ∈ inputs, dropped.domain = input.localName ∧
      dropped.aliasName ∈ input.aliases ∧ dropped.aliasName ≠ input.localName ∧
      dropped.aliasName ≠ input.declared valid ∧
      table.resolve dropped.aliasName ≠ some input.localName ∧
      dropped.heldBy = table.resolve dropped.aliasName
  droppedOnce : table.droppedAliases.Nodup

section Reports

variable {sorted inputs : List (NameInput Name)}

omit [LinearOrder Name] in
theorem IsLocal.perm (permutation : sorted.Perm inputs) {name : Name} :
    IsLocal sorted name ↔ IsLocal inputs name := by
  unfold IsLocal
  simp only [permutation.mem_iff]

omit [LinearOrder Name] in
theorem owns_perm (permutation : sorted.Perm inputs) {spelling owner : Name}
    (owns : Owns valid sorted spelling owner) : Owns valid inputs spelling owner := by
  unfold Owns at owns ⊢
  rw [IsLocal.perm permutation] at owns
  rcases owns with registered | ⟨free, ⟨input, sole, here⟩ | ⟨undeclared, input, sole, here⟩⟩
  · exact .inl registered
  · exact .inr ⟨free, .inl ⟨input, sole.perm permutation, here⟩⟩
  · exact .inr ⟨free, .inr ⟨fun other member => undeclared other (permutation.mem_iff.mpr member),
      input, sole.perm permutation, here⟩⟩

theorem isShadowed_iff (ascending : Ascending sorted) {domain : Name} :
    (NameTable.assemble valid sorted).isShadowed domain = true ↔
      ∃ input ∈ sorted, input.localName = domain ∧ input.declared valid ≠ input.localName ∧
        IsLocal sorted (input.declared valid) := by
  unfold NameTable.isShadowed
  rw [decide_eq_true_iff]
  exact mem_shadowedDomains ascending

theorem pairwise_nameConflicts :
    ((nameConflicts valid sorted).map NameConflict.name).Pairwise (· < ·) := by
  unfold nameConflicts freeClaims
  rw [List.map_map]
  exact List.Pairwise.sublist ((List.filter_sublist.trans List.filter_sublist).map Prod.fst)
    pairwise_claimsByName

/-- A domain's canonical name means another domain, or none, exactly where
someone is registered under it or someone else declares it too. -/
theorem canonical_lost_iff (ascending : Ascending sorted) {input : NameInput Name}
    (member : input ∈ sorted) :
    (NameTable.assemble valid sorted).resolve (input.declared valid) ≠ some input.localName ↔
      (NameTable.assemble valid sorted).isShadowed input.localName = true ∨
        ∃ conflict ∈ nameConflicts valid sorted,
          conflict.name = input.declared valid ∧ input.localName ∈ conflict.claimants := by
  rw [isShadowed_iff ascending, ne_eq, resolve_assemble ascending]
  by_cases registered : IsLocal sorted (input.declared valid)
  · have free : ¬ ∃ conflict ∈ nameConflicts valid sorted,
        conflict.name = input.declared valid ∧ input.localName ∈ conflict.claimants := by
      rintro ⟨conflict, conflictIn, named, -⟩
      exact ((mem_nameConflicts ascending).mp conflictIn).1 (named ▸ registered)
    have owner : Owns valid sorted (input.declared valid) input.localName ↔
        input.localName = input.declared valid := by
      unfold Owns
      simp [registered]
    rw [owner, or_iff_left free]
    constructor
    · intro different
      exact ⟨input, member, rfl, fun same => different same.symm, registered⟩
    · rintro ⟨other, otherIn, same, different, -⟩ here
      obtain rfl := ascending.eq_of_localName otherIn member same
      exact different here.symm
  · have among : input.localName ∈ claimantsOf valid sorted (input.declared valid) :=
      (mem_claimantsOf_free registered).mpr ⟨input, member, rfl, rfl⟩
    have owner : Owns valid sorted (input.declared valid) input.localName ↔
        claimantsOf valid sorted (input.declared valid) = [input.localName] := by
      rw [claimantsOf_eq_singleton ascending registered]
      unfold Owns
      constructor
      · rintro (⟨here, -⟩ | ⟨-, declarer | ⟨undeclared, -⟩⟩)
        · exact absurd here registered
        · exact declarer
        · exact absurd rfl (undeclared input member)
      · exact fun declarer => .inr ⟨registered, .inl declarer⟩
    have seen : ¬ ∃ other ∈ sorted, other.localName = input.localName ∧
        other.declared valid ≠ other.localName ∧ IsLocal sorted (other.declared valid) := by
      rintro ⟨other, otherIn, same, -, here⟩
      obtain rfl := ascending.eq_of_localName otherIn member same
      exact registered here
    rw [owner, or_iff_right seen]
    constructor
    · intro several
      have long : 1 < (claimantsOf valid sorted (input.declared valid)).length := by
        by_contra short
        have some := List.length_pos_of_mem among
        have one : (claimantsOf valid sorted (input.declared valid)).length = 1 := by omega
        obtain ⟨only, single⟩ := List.length_eq_one_iff.mp one
        rw [single, List.mem_singleton] at among
        exact several (among ▸ single)
      exact ⟨⟨input.declared valid, claimantsOf valid sorted (input.declared valid)⟩,
        (mem_nameConflicts ascending).mpr ⟨registered, rfl, long⟩, rfl, among⟩
    · rintro ⟨conflict, conflictIn, named, -⟩ single
      obtain ⟨-, shape, long⟩ := (mem_nameConflicts ascending).mp conflictIn
      rw [shape, named, single] at long
      exact absurd long (by simp)

theorem reports_assemble (ascending : Ascending sorted) :
    Reports valid sorted (NameTable.assemble valid sorted) where
  conflicts conflict := by
    refine (mem_nameConflicts ascending).trans ⟨?_, ?_⟩
    · rintro ⟨free, shape, long⟩
      rw [shape] at long ⊢
      exact ⟨free, long, pairwise_claimantsOf ascending _, fun _ => mem_claimantsOf_free free⟩
    · rintro ⟨free, long, ordered, members⟩
      have same : conflict.claimants.Perm (claimantsOf valid sorted conflict.name) :=
        (List.perm_ext_iff_of_nodup (ordered.imp ne_of_lt)
          ((pairwise_claimantsOf ascending _).imp ne_of_lt)).mpr
            fun claimant => (members claimant).trans (mem_claimantsOf_free free).symm
      exact ⟨free, same.eq_of_pairwise (fun _ _ _ _ less more => absurd more (lt_asymm less))
        ordered (pairwise_claimantsOf ascending _), long⟩
  conflictsInOrder := pairwise_nameConflicts
  shadowed _ := isShadowed_iff ascending
  lost _ member := canonical_lost_iff ascending member
  dropped dropped := by
    refine List.mem_insertionSort _ |>.trans ((mem_lostAliases ascending).trans ⟨?_, ?_⟩)
    · rintro ⟨input, member, domain, own, elsewhere, holder⟩
      obtain ⟨listed, notLocal, notDeclared⟩ := mem_ownAliases.mp own
      exact ⟨input, member, domain, listed, notLocal, notDeclared, elsewhere, holder⟩
    · rintro ⟨input, member, domain, listed, notLocal, notDeclared, elsewhere, holder⟩
      exact ⟨input, member, domain, mem_ownAliases.mpr ⟨listed, notLocal, notDeclared⟩,
        elsewhere, holder⟩
  droppedOnce := (List.perm_insertionSort _ _).nodup_iff.mpr (distinct_lostAliases ascending)

theorem Reports.perm {table : NameTable Name} (permutation : sorted.Perm inputs)
    (reports : Reports valid sorted table) : Reports valid inputs table where
  conflicts conflict := by
    simpa only [IsLocal.perm permutation, permutation.mem_iff] using reports.conflicts conflict
  conflictsInOrder := reports.conflictsInOrder
  shadowed domain := by
    simpa only [IsLocal.perm permutation, permutation.mem_iff] using reports.shadowed domain
  lost input member := reports.lost input (permutation.mem_iff.mpr member)
  dropped dropped := by
    simpa only [permutation.mem_iff] using reports.dropped dropped
  droppedOnce := reports.droppedOnce

end Reports

/-- The name written in place of a spelling means the same domain, and nothing is
written in place of it. -/
theorem normalize_settles {table : NameTable Name} {spelling canonical : Name}
    (written : table.normalize spelling = some canonical) :
    table.resolve canonical = table.resolve spelling ∧ table.normalize canonical = none := by
  unfold NameTable.normalize at written
  obtain ⟨localName, means, found⟩ := Option.bind_eq_some_iff.mp written
  obtain ⟨name, named, kept⟩ := Option.bind_eq_some_iff.mp found
  split at kept
  · next back =>
      obtain rfl := Option.some.inj kept
      refine ⟨back.2.trans means.symm, ?_⟩
      unfold NameTable.normalize
      rw [back.2, Option.bind_some, named, Option.bind_some, if_neg fun again => again.1 rfl]
  · cases kept

/-- Whatever order the domains come in, the table is the same, a spelling
resolves to the domain it means, the name to write in its place means the same
domain and stays, and the reports name every claim that lost. -/
theorem name_table_settles (isAlphanumeric : Char → Bool) {inputs : List (NameInput Text)}
    (distinct : Distinct inputs) :
    (∀ others, inputs.Perm others →
      NameTable.build (isDomainName isAlphanumeric) others =
        NameTable.build (isDomainName isAlphanumeric) inputs) ∧
    (∀ spelling owner,
      (NameTable.build (isDomainName isAlphanumeric) inputs).resolve spelling = some owner ↔
        Owns (isDomainName isAlphanumeric) inputs spelling owner) ∧
    (∀ spelling canonical,
      (NameTable.build (isDomainName isAlphanumeric) inputs).normalize spelling =
          some canonical →
        (NameTable.build (isDomainName isAlphanumeric) inputs).resolve canonical =
            (NameTable.build (isDomainName isAlphanumeric) inputs).resolve spelling ∧
          (NameTable.build (isDomainName isAlphanumeric) inputs).normalize canonical = none) ∧
    Reports (isDomainName isAlphanumeric) inputs
      (NameTable.build (isDomainName isAlphanumeric) inputs) := by
  have ascending := ascending_sortInputs distinct
  have permutation := perm_sortInputs distinct
  refine ⟨?_, ?_, ?_, (reports_assemble ascending).perm permutation⟩
  · intro others same
    unfold NameTable.build
    rw [sortInputs_perm distinct same]
  · intro spelling owner
    unfold NameTable.build
    rw [resolve_assemble ascending]
    exact ⟨owns_perm permutation, owns_perm permutation.symm⟩
  · exact fun spelling canonical => normalize_settles

namespace Shadowing

/-- One domain declares the name another one is registered under. -/
def domains : List (NameInput Text) :=
  [{ localName := "docs".toList, canonical := none, aliases := [] },
    { localName := "team".toList, canonical := some "docs".toList, aliases := ["old".toList] }]

theorem name_table_settles_shadowing :
    Distinct domains ∧
      (NameTable.build (isDomainName Text.isAsciiAlphanumeric) domains).resolve "old".toList =
        some "team".toList ∧
      Reports (isDomainName Text.isAsciiAlphanumeric) domains
        (NameTable.build (isDomainName Text.isAsciiAlphanumeric) domains) :=
  ⟨by decide, by decide, (name_table_settles Text.isAsciiAlphanumeric (by decide)).2.2.2⟩

/-- The claim of the second domain is lost, and neither of the two lists says
so. -/
theorem shadowed_claim_unlisted :
    Distinct domains ∧
      (NameTable.build (isDomainName Text.isAsciiAlphanumeric) domains).canonical
        "team".toList = some "docs".toList ∧
      (NameTable.build (isDomainName Text.isAsciiAlphanumeric) domains).resolve
        "docs".toList = some "docs".toList ∧
      (NameTable.build (isDomainName Text.isAsciiAlphanumeric) domains).conflicts = [] ∧
      (NameTable.build (isDomainName Text.isAsciiAlphanumeric) domains).droppedAliases = [] := by
  decide

end Shadowing

end Crystalline.Names
