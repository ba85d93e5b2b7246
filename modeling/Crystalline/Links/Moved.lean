import Crystalline.Links.Reading

/-!
# A move keeps references

An engram moves from one address to another and a wikilink that found it is
rewritten.  The written text finds the engram at its new address, and a link
to another engram is left alone.
-/

namespace Crystalline.Links

open Text LookupTable

section Move

variable (toLowercase : Text → Text)

/-- The moved engram before and after the move. -/
def Relink.before (spec : Relink) : Held :=
  ⟨spec.fromDomain, spec.fromPermalink, spec.title⟩

def Relink.after (spec : Relink) : Held :=
  ⟨spec.toDomain, spec.toPermalink, spec.title⟩

/-- What stands between the brackets of a wikilink after `relink_line`. -/
def writtenBracket (inner readIn writtenIn : Text) (spec : Relink) : Text :=
  (relinkBracket toLowercase inner inner readIn writtenIn spec).getD inner

/-- The address change names domains and a permalink, and a title. -/
structure Spelled (spec : Relink) : Prop where
  fromDomain : IsName spec.fromDomain
  toDomain : IsName spec.toDomain
  toPermalink : IsName spec.toPermalink
  titleTrimmed : IsTrimmed spec.title
  titleKept : spec.title ≠ []

/-- No other engram answers to the moved one's names, where it was or where it
is. -/
structure Alone (others : LookupTable) (spec : Relink) : Prop where
  fromTitle : ∀ held ∈ others.held, held.domain = spec.fromDomain →
    toLowercase held.title ≠ toLowercase spec.title
  fromPermalink : ∀ held ∈ others.held, held.domain = spec.fromDomain →
    held.permalink ≠ spec.fromPermalink
  toTitle : ∀ held ∈ others.held, held.domain = spec.toDomain →
    toLowercase held.title ≠ toLowercase spec.title
  toPermalink : ∀ held ∈ others.held, held.domain = spec.toDomain →
    held.permalink ≠ spec.toPermalink

instance (others : LookupTable) (spec : Relink) :
    Decidable (Alone toLowercase others spec) :=
  decidable_of_iff
    ((∀ held ∈ others.held, held.domain = spec.fromDomain →
        toLowercase held.title ≠ toLowercase spec.title) ∧
      (∀ held ∈ others.held, held.domain = spec.fromDomain →
        held.permalink ≠ spec.fromPermalink) ∧
      (∀ held ∈ others.held, held.domain = spec.toDomain →
        toLowercase held.title ≠ toLowercase spec.title) ∧
      (∀ held ∈ others.held, held.domain = spec.toDomain →
        held.permalink ≠ spec.toPermalink))
    ⟨fun all => ⟨all.1, all.2.1, all.2.2.1, all.2.2.2⟩, fun alone =>
      ⟨alone.fromTitle, alone.fromPermalink, alone.toTitle, alone.toPermalink⟩⟩

/-- The caller's list holds the link's whole text exactly when another engram of
the domain the link is read in has it as its title. -/
def ShadowsKnown (others : LookupTable) (spec : Relink) (target : LinkTarget)
    (readIn : Text) : Prop :=
  isShadowed toLowercase spec target.whole = true ↔
    ∃ held ∈ others.held, held.domain = target.domain.getD readIn ∧
      ∃ whole, target.whole = some whole ∧ toLowercase held.title = toLowercase whole

/-- The link names the moved engram by its whole text, `#` included. -/
def NamesWhole (spec : Relink) (target : LinkTarget) : Prop :=
  ∃ whole, target.whole = some whole ∧ toLowercase whole = toLowercase spec.title

/-- Where the link is written, its text can be read as it is meant. -/
structure Clear (others : LookupTable) (spec : Relink) (inner readIn writtenIn : Text) :
    Prop where
  /-- No other engram there has the whole written text as its title. -/
  whole : ∀ whole,
    (LinkTarget.parse (writtenBracket toLowercase inner readIn writtenIn spec)).whole =
      some whole →
    ∀ held ∈ others.held, held.domain = spec.toDomain →
      toLowercase held.title ≠ toLowercase whole
  /-- No other engram there has the title that is written as its permalink. -/
  target : spec.fromDomain ≠ spec.toDomain →
    (LinkTarget.parse inner).target ≠ spec.fromPermalink →
    ¬ NamesWhole toLowercase spec (LinkTarget.parse inner) →
    ∀ held ∈ others.held, held.domain = spec.toDomain →
      held.permalink ≠ (LinkTarget.parse inner).target
  /-- A title that gains a prefix does not start with a `#`. -/
  hash : (LinkTarget.parse inner).domain = none → writtenIn ≠ spec.toDomain →
    (LinkTarget.parse inner).target.head? ≠ some '#'
  /-- A whole title that loses its prefix reads as no prefix of its own. -/
  colon : (LinkTarget.parse inner).domain ≠ none → spec.fromDomain ≠ spec.toDomain →
    writtenIn = spec.toDomain →
    ∀ whole, (LinkTarget.parse inner).whole = some whole →
      toLowercase whole = toLowercase spec.title → prefixOf whole = none

variable {toLowercase}

section Tables

variable {others : LookupTable} {spec : Relink}

/-- How a link finds the moved engram. -/
inductive FindsMoved (toLowercase : Text → Text) (others : LookupTable) (moved : Held)
    (target : LinkTarget) : Prop where
  | whole (names : ∃ whole, target.whole = some whole ∧
      toLowercase whole = toLowercase moved.title)
  | permalink (same : target.target = moved.permalink)
  | title (free : ∀ held ∈ others.held, held.domain = moved.domain →
        held.permalink ≠ target.target)
      (same : toLowercase target.target = toLowercase moved.title)

variable {found : ResolvedRef} {target : LinkTarget} {readIn : Text} {domain text : Text}
  {moved : Held}

theorem byTitle_other (answer : (resolver toLowercase others).byTitle domain text = some found) :
    ∃ held ∈ others.held, held.domain = domain ∧
      toLowercase held.title = toLowercase text ∧ held.ref = found := by
  simp only [resolver, Option.map_eq_some_iff] at answer
  obtain ⟨held, first, rfl⟩ := answer
  have member := List.mem_of_find?_eq_some first
  have holds := List.find?_some first
  simp only [Bool.and_eq_true, beq_iff_eq] at holds
  exact ⟨held, member, holds.1, holds.2, rfl⟩

theorem byPermalink_other
    (answer : (resolver toLowercase others).byPermalink domain text = some found) :
    ∃ held ∈ others.held, held.domain = domain ∧ held.permalink = text ∧
      held.ref = found := by
  simp only [resolver, Option.map_eq_some_iff] at answer
  obtain ⟨held, first, rfl⟩ := answer
  have member := List.mem_of_find?_eq_some first
  have holds := List.find?_some first
  simp only [Bool.and_eq_true, beq_iff_eq] at holds
  exact ⟨held, member, holds.1, holds.2, rfl⟩

theorem ref_ne_of_other {moved held : Held}
    (alone : held.domain = moved.domain → held.permalink ≠ moved.permalink) :
    held.ref ≠ moved.ref := by
  intro same
  have domain := congrArg ResolvedRef.domain same
  have permalink := congrArg ResolvedRef.permalink same
  exact alone domain permalink

/-- What the whole text finds: the moved engram by its title, or another engram,
or nothing. -/
theorem resolveWhole_insert (others : LookupTable) (moved : Held) (target : LinkTarget)
    (readIn : Text) :
    resolveWhole target readIn (resolver toLowercase (others.insert moved)) =
        some moved.ref ∧ target.domain.getD readIn = moved.domain ∧
        (∃ whole, target.whole = some whole ∧
          toLowercase whole = toLowercase moved.title) ∨
      resolveWhole target readIn (resolver toLowercase (others.insert moved)) =
        resolveWhole target readIn (resolver toLowercase others) := by
  simp only [resolveWhole]
  cases target.whole with
  | none => exact Or.inr rfl
  | some whole =>
      simp only [Option.bind_some, byTitle_insert]
      split
      · next same => exact Or.inl ⟨rfl, same.1.symm, whole, rfl, same.2.symm⟩
      · exact Or.inr rfl

theorem resolveWhole_other
    (answer : resolveWhole target readIn (resolver toLowercase others) = some found) :
    ∃ held ∈ others.held, held.domain = target.domain.getD readIn ∧ held.ref = found ∧
      ∃ whole, target.whole = some whole ∧ toLowercase held.title = toLowercase whole := by
  rw [resolveWhole, Option.bind_eq_some_iff] at answer
  obtain ⟨whole, named, byTitle⟩ := answer
  obtain ⟨held, member, inDomain, same, isFound⟩ := byTitle_other byTitle
  exact ⟨held, member, inDomain, isFound, whole, named, same⟩

/-- A link that finds the moved engram points into its domain and names it. -/
theorem findsMoved_of_resolveDirect (alone : ∀ held ∈ others.held, held.domain = moved.domain →
      held.permalink ≠ moved.permalink)
    (found : resolveDirect target readIn (resolver toLowercase (others.insert moved)) =
      some moved.ref) :
    target.domain.getD readIn = moved.domain ∧
      FindsMoved toLowercase others moved target := by
  have notOther : ∀ held ∈ others.held, held.ref ≠ moved.ref := fun held member =>
    ref_ne_of_other (alone held member)
  rw [resolveDirect, Option.or_eq_some_iff] at found
  rcases resolveWhole_insert others moved target readIn with
    ⟨-, inDomain, names⟩ | asOthers
  · exact ⟨inDomain, .whole names⟩
  · rw [asOthers] at found
    rcases found with byWhole | ⟨-, byName⟩
    · obtain ⟨held, member, -, isFound, -⟩ := resolveWhole_other byWhole
      exact (notOther held member isFound).elim
    · rw [resolveIn, byPermalink_insert, byTitle_insert] at byName
      split at byName
      · next same => exact ⟨same.1.symm, .permalink same.2.symm⟩
      · rw [Option.or_eq_some_iff] at byName
        rcases byName with byPermalink | ⟨noPermalink, byTitle⟩
        · obtain ⟨held, member, -, -, isFound⟩ := byPermalink_other byPermalink
          exact (notOther held member isFound).elim
        · split at byTitle
          · next same =>
              refine ⟨same.1.symm, .title ?_ same.2.symm⟩
              intro held member inDomain permalink
              simp only [resolver, Option.map_eq_none_iff, List.find?_eq_none] at noPermalink
              have other := noPermalink held member
              simp [inDomain, permalink, same.1] at other
          · obtain ⟨held, member, -, -, isFound⟩ := byTitle_other byTitle
            exact (notOther held member isFound).elim

/-- A link that names the moved engram where it is finds it there. -/
theorem resolveDirect_of_findsMoved (inDomain : target.domain.getD readIn = moved.domain)
    (finds : FindsMoved toLowercase others moved target)
    (wholeFree : ∀ whole, target.whole = some whole → ∀ held ∈ others.held,
      held.domain = moved.domain → toLowercase held.title ≠ toLowercase whole) :
    resolveDirect target readIn (resolver toLowercase (others.insert moved)) =
      some moved.ref := by
  have wholeAnswer : resolveWhole target readIn (resolver toLowercase (others.insert moved)) =
      some moved.ref ∨
      resolveWhole target readIn (resolver toLowercase (others.insert moved)) = none ∧
        ¬ ∃ whole, target.whole = some whole ∧
          toLowercase whole = toLowercase moved.title := by
    rw [resolveWhole, inDomain]
    cases named : target.whole with
    | none => exact Or.inr ⟨rfl, by simp⟩
    | some whole =>
        rw [Option.bind_some, byTitle_insert]
        by_cases same : toLowercase moved.title = toLowercase whole
        · exact Or.inl (if_pos ⟨rfl, same⟩)
        · rw [if_neg (by simp [same]), byTitle_eq_none (wholeFree whole named)]
          exact Or.inr ⟨rfl, by simpa [eq_comm] using same⟩
  rcases wholeAnswer with answer | ⟨noAnswer, notWhole⟩
  · rw [resolveDirect, answer]
    rfl
  · rw [resolveDirect, noAnswer, inDomain, Option.none_or, resolveIn, byPermalink_insert,
      byTitle_insert]
    cases finds with
    | whole names => exact (notWhole names).elim
    | permalink same => simp [same]
    | title free same =>
        rw [byPermalink_eq_none free]
        split
        · rfl
        · rw [if_pos ⟨rfl, same.symm⟩]
          rfl

end Tables

section Written

variable {others : LookupTable} {spec : Relink} {readIn writtenIn : Text} {target : LinkTarget}
  {inner : Text} {how : Named} {text : Text}

/-- How `relink_wikilink` reads a link that finds the moved engram. -/
theorem named_of_finds (spelled : Spelled spec)
    (finds : FindsMoved toLowercase others spec.before target) :
    named toLowercase spec target.whole target.target = some .permalink ∧
        target.target = spec.fromPermalink ∧ ¬ NamesWhole toLowercase spec target ∨
      named toLowercase spec target.whole target.target = some .title ∧
        (NamesWhole toLowercase spec target ∨
          target.target ≠ spec.fromPermalink ∧
            toLowercase target.target = toLowercase spec.title) := by
  have title : trim spec.title = spec.title := spelled.titleTrimmed.trim_eq
  have titleKept : spec.title.isEmpty = false := by simpa using spelled.titleKept
  have names : (target.whole.any fun whole => !spec.title.isEmpty &&
      toLowercase whole == toLowercase spec.title) = true ↔
      NamesWhole toLowercase spec target := by
    simp [NamesWhole, titleKept, Option.any_eq_true]
  simp only [named, title]
  by_cases whole : NamesWhole toLowercase spec target
  · rw [if_pos (names.mpr whole)]
    exact Or.inr ⟨rfl, Or.inl whole⟩
  · rw [if_neg (names.not.mpr whole)]
    by_cases permalink : target.target = spec.fromPermalink
    · rw [if_pos permalink]
      exact Or.inl ⟨rfl, permalink, whole⟩
    · rw [if_neg permalink]
      have same : toLowercase target.target = toLowercase spec.title := by
        cases finds with
        | whole names => exact (whole names).elim
        | permalink same => exact (permalink same).elim
        | title _ same => exact same
      rw [if_pos (by simp [titleKept, same])]
      exact Or.inr ⟨rfl, Or.inr ⟨permalink, same⟩⟩

/-- The target part reads as the whole bracket text does, the display text
apart. -/
theorem parse_targetPart (inner : Text) :
    (LinkTarget.parse (targetPart inner)).domain = (LinkTarget.parse inner).domain ∧
      (LinkTarget.parse (targetPart inner)).target = (LinkTarget.parse inner).target ∧
      (LinkTarget.parse (targetPart inner)).whole = (LinkTarget.parse inner).whole := by
  obtain ⟨lead, name, tail, trail, rest, composed⟩ := exists_composed inner
  have part : Composed (targetPart inner) lead name tail trail [] :=
    { composed with
      whole := by rw [composed.targetPart_eq.1, List.append_nil]
      display := Or.inl rfl }
  obtain ⟨domain, target, whole⟩ := composed.reads
  obtain ⟨partDomain, partTarget, partWhole⟩ := part.reads
  refine ⟨partDomain.trans domain.symm, partTarget.trans target.symm, ?_⟩
  rw [whole, partWhole, partTarget, target]

theorem relinkWikilink_targetPart (inner : Text) :
    relinkWikilink toLowercase (targetPart inner) readIn writtenIn spec =
      relinkWikilink toLowercase inner readIn writtenIn spec := by
  obtain ⟨domain, target, whole⟩ := parse_targetPart inner
  have newTargetEq : ∀ how, newTarget spec (LinkTarget.parse (targetPart inner)) how =
      newTarget spec (LinkTarget.parse inner) how := by
    intro how
    cases how with
    | permalink => rfl
    | title => exact target
  simp only [relinkWikilink, namesMoved, newDomain, newTargetEq, domain, target, whole]
  rfl

theorem namesMoved_of_pointed (pointed : target.domain.getD readIn = spec.fromDomain) :
    namesMoved toLowercase spec target readIn =
      named toLowercase spec target.whole target.target := by
  unfold namesMoved
  cases isDomain : target.domain with
  | none =>
      rw [isDomain, Option.getD_none] at pointed
      exact if_pos pointed
  | some domain =>
      rw [isDomain, Option.getD_some] at pointed
      exact if_pos pointed

theorem writtenBracket_of_names (writtenIn : Text)
    (unshadowed : isShadowed toLowercase spec (LinkTarget.parse inner).whole = false)
    (names : namesMoved toLowercase spec (LinkTarget.parse inner) readIn = some how) :
    let target := LinkTarget.parse inner
    let text := newTarget spec target how
    let domain := newDomain spec target writtenIn text
    writtenBracket toLowercase inner readIn writtenIn spec =
      if domain = target.domain ∧ text = target.target then inner
      else prefixed domain text ++ inner.drop (fragmentStart (targetPart inner)) := by
  intro target text domain
  have rewritten : relinkWikilink toLowercase inner readIn writtenIn spec =
      if domain = target.domain ∧ text = target.target then none
      else some (prefixed domain text) := by
    simp only [relinkWikilink, unshadowed, names, Option.bind_some]
    rfl
  rw [writtenBracket, relinkBracket, relinkWikilink_targetPart, rewritten]
  split <;> rfl

theorem newDomain_points (spec : Relink) (target : LinkTarget) (writtenIn text : Text) :
    (newDomain spec target writtenIn text).getD writtenIn = spec.toDomain := by
  unfold newDomain
  split
  · split
    · next dropped => simp [dropped.2.1]
    · rfl
  · split
    · rfl
    · next same => simpa using same

theorem newDomain_cases (spec : Relink) (target : LinkTarget) (writtenIn text : Text) :
    newDomain spec target writtenIn text = some spec.toDomain ∨
      newDomain spec target writtenIn text = none ∧ writtenIn = spec.toDomain ∧
        (target.domain ≠ none → spec.fromDomain ≠ spec.toDomain) := by
  unfold newDomain
  split
  · split
    · next dropped => exact Or.inr ⟨rfl, dropped.2.1, fun _ => dropped.1⟩
    · exact Or.inl rfl
  · next bare =>
      split
      · exact Or.inl rfl
      · next same => exact Or.inr ⟨rfl, by simpa using same, fun kept => (kept bare).elim⟩

theorem prefixOf_of_parse (trimmed : IsTrimmed text) (noBar : '|' ∉ text) (noHash : '#' ∉ text)
    (bare : (LinkTarget.parse text).domain = none) : prefixOf text = none := by
  have empty : IsBlank [] := by simp [IsBlank]
  have composed : Composed text [] text [] [] [] :=
    ⟨by simp, empty, empty, Or.inl rfl, trimmed, by simpa using noBar,
      Or.inl ⟨rfl, Or.inl noHash⟩⟩
  rw [composed.reads.1] at bare
  simpa using bare

section

variable (spelled : Spelled spec)
include spelled

theorem prefixOf_prefixed (trimmed : IsTrimmed text) (kept : text ≠ []) (noBar : '|' ∉ text)
    (noHash : '#' ∉ text)
    (changed : target.domain = none → writtenIn = spec.toDomain → prefixOf text = none) :
    prefixOf (prefixed (newDomain spec target writtenIn text) text) =
      (newDomain spec target writtenIn text).map fun domain => (domain, text) := by
  have withPrefix : prefixOf (prefixed (some spec.toDomain) text) =
      some (spec.toDomain, text) := prefixOf_name spelled.toDomain trimmed kept
  unfold newDomain
  split
  · split
    · next dropped => exact prefixOf_of_parse trimmed noBar noHash dropped.2.2
    · exact withPrefix
  · next bare =>
      split
      · exact withPrefix
      · next same => exact changed bare (by simpa using same)

theorem prefixed_spelled (target : LinkTarget) (writtenIn : Text) (trimmed : IsTrimmed text)
    (kept : text ≠ []) (noBar : '|' ∉ text) (noHash : '#' ∉ text) :
    IsTrimmed (prefixed (newDomain spec target writtenIn text) text) ∧
      prefixed (newDomain spec target writtenIn text) text ≠ [] ∧
      '|' ∉ prefixed (newDomain spec target writtenIn text) text ∧
      '#' ∉ prefixed (newDomain spec target writtenIn text) text := by
  have name := spelled.toDomain
  rcases newDomain_cases spec target writtenIn text with isNew | ⟨isNone, -⟩
  · rw [isNew, prefixed]
    exact ⟨name.trimmed.append name.nonempty trimmed kept, by simp,
      by simp [name.bar_notMem, noBar], by simp [name.hash_notMem, noHash]⟩
  · rw [isNone]
    exact ⟨trimmed, kept, noBar, noHash⟩

/-- A target that is written again has no `#` in it that a prefix would expose. -/
theorem target_noHash {inner lead name tail trail rest : Text}
    (composed : Composed inner lead name tail trail rest)
    (pointed : (LinkTarget.parse inner).domain.getD readIn = spec.fromDomain)
    (hash : (LinkTarget.parse inner).domain = none →
      (LinkTarget.parse inner).target.head? ≠ some '#') :
    '#' ∉ (LinkTarget.parse inner).target := by
  apply composed.target_spelled.2.2.2
  rcases composed.fragment with ⟨-, uncut⟩ | fragment
  · rcases uncut with absent | ⟨after, rfl⟩
    · exact absent
    · exfalso
      obtain ⟨domain, target, -⟩ := composed.reads
      cases found : prefixOf ('#' :: after) with
      | none =>
          rw [found] at domain target
          apply hash domain
          rw [target]
          rfl
      | some parts =>
          rw [found] at domain
          rw [domain] at pointed
          obtain ⟨before, behind, shape, -, trimmed, -, domainKept, -⟩ := prefixOf_eq_some found
          have member : '#' ∈ before := by
            cases before with
            | nil => exact absurd (List.cons.inj shape).1 (by decide)
            | cons first before =>
                rw [(List.cons.inj shape).1]
                exact List.mem_cons_self
          obtain ⟨front, back, frontBlank, backBlank, beforeEq⟩ := exists_trim before
          apply spelled.fromDomain.hash_notMem
          have sameDomain : parts.1 = spec.fromDomain := pointed
          rw [← sameDomain, ← trimmed]
          rw [beforeEq] at member
          simp only [List.mem_append] at member
          rcases member with (inFront | inside) | inBack
          · exact (blank_notMem frontBlank (by decide) inFront).elim
          · exact inside
          · exact (blank_notMem backBlank (by decide) inBack).elim
  · exact fragment.noHash

end

/-- How a link that finds the moved engram names it, with the text that stays. -/
def Meaning (toLowercase : Text → Text) (spec : Relink) (target : LinkTarget) :
    Named → Prop
  | .permalink => target.target = spec.fromPermalink ∧ ¬ NamesWhole toLowercase spec target
  | .title => NamesWhole toLowercase spec target ∨
      target.target ≠ spec.fromPermalink ∧
        toLowercase target.target = toLowercase spec.title

section

variable (spelled : Spelled spec) (folds : ∀ text, toLowercase text = toLowercase [] → text = [])
include spelled folds

/-- A target text that is written is trimmed, kept and plain. -/
theorem newTarget_spelled {inner lead name tail trail rest : Text}
    (composed : Composed inner lead name tail trail rest)
    (pointed : (LinkTarget.parse inner).domain.getD readIn = spec.fromDomain)
    (clear : Clear toLowercase others spec inner readIn writtenIn)
    (meaning : Meaning toLowercase spec (LinkTarget.parse inner) how)
    (changed : ¬ (newDomain spec (LinkTarget.parse inner) writtenIn
        (newTarget spec (LinkTarget.parse inner) how) = (LinkTarget.parse inner).domain ∧
      newTarget spec (LinkTarget.parse inner) how = (LinkTarget.parse inner).target)) :
    IsTrimmed (newTarget spec (LinkTarget.parse inner) how) ∧
      newTarget spec (LinkTarget.parse inner) how ≠ [] ∧
      '|' ∉ newTarget spec (LinkTarget.parse inner) how ∧
      '#' ∉ newTarget spec (LinkTarget.parse inner) how ∧
      ((LinkTarget.parse inner).domain = none → writtenIn = spec.toDomain →
        prefixOf (newTarget spec (LinkTarget.parse inner) how) = none) := by
  cases how with
  | permalink =>
      have name := spelled.toPermalink
      exact ⟨name.trimmed, name.nonempty, name.bar_notMem, name.hash_notMem,
        fun _ _ => prefixOf_eq_none_of_notMem name.colon_notMem⟩
  | title =>
      have moves : (LinkTarget.parse inner).domain = none → writtenIn ≠ spec.toDomain := by
        intro bare same
        apply changed
        refine ⟨?_, rfl⟩
        rw [newDomain, bare]
        simp [same]
      obtain ⟨trimmed, noBar, keptByTail, -⟩ := composed.target_spelled
      refine ⟨trimmed, ?_, noBar, ?_, fun bare same => (moves bare same).elim⟩
      · rcases meaning with ⟨whole, isWhole, -⟩ | ⟨-, same⟩
        · apply keptByTail
          rintro rfl
          rw [composed.reads.2.2] at isWhole
          simp at isWhole
        · intro empty
          have written : (LinkTarget.parse inner).target = [] := empty
          rw [written] at same
          exact spelled.titleKept (folds _ same.symm)
      · exact target_noHash spelled composed pointed fun bare =>
          clear.hash bare (moves bare)

omit spelled folds in
/-- A link that names the engram by its whole text keeps its fragment. -/
theorem whole_stays {inner lead name tail trail rest : Text}
    (composed : Composed inner lead name tail trail rest)
    (clear : Clear toLowercase others spec inner readIn writtenIn)
    (whole : NamesWhole toLowercase spec (LinkTarget.parse inner))
    (changed : ¬ (newDomain spec (LinkTarget.parse inner) writtenIn
        (newTarget spec (LinkTarget.parse inner) .title) = (LinkTarget.parse inner).domain ∧
      newTarget spec (LinkTarget.parse inner) .title = (LinkTarget.parse inner).target)) :
    (LinkTarget.parse inner).whole = some ((LinkTarget.parse inner).target ++ tail) ∧
      ¬ (tail = [] ∨ ((newDomain spec (LinkTarget.parse inner) writtenIn
          (newTarget spec (LinkTarget.parse inner) .title)).map fun domain =>
            (domain, newTarget spec (LinkTarget.parse inner) .title)) = none ∧
        prefixOf (prefixed (newDomain spec (LinkTarget.parse inner) writtenIn
          (newTarget spec (LinkTarget.parse inner) .title))
          (newTarget spec (LinkTarget.parse inner) .title) ++ tail) ≠ none) := by
  obtain ⟨text, isWhole, sameTitle⟩ := whole
  have composedWhole := composed.reads.2.2
  rw [isWhole] at composedWhole
  have shape : tail ≠ [] ∧ text = (LinkTarget.parse inner).target ++ tail := by
    split at composedWhole
    · cases composedWhole
    · next kept =>
        rw [not_or] at kept
        exact ⟨kept.1, Option.some.inj composedWhole⟩
  refine ⟨by rw [isWhole, shape.2], ?_⟩
  rintro (empty | ⟨noPrefix, hidden⟩)
  · exact shape.1 empty
  · rcases newDomain_cases spec (LinkTarget.parse inner) writtenIn
      (newTarget spec (LinkTarget.parse inner) .title) with isNew | ⟨isNone, same, crosses⟩
    · rw [isNew] at noPrefix
      cases noPrefix
    · have hadPrefix : (LinkTarget.parse inner).domain ≠ none := fun bare =>
        changed ⟨isNone.trans bare.symm, rfl⟩
      apply hidden
      rw [isNone, prefixed, newTarget, ← shape.2]
      exact clear.colon hadPrefix (crosses hadPrefix) same text isWhole sameTitle

/-- The text written for a link that finds the moved engram: the new permalink
or the title again, read where the engram is now. -/
theorem writtenBracket_reads
    (pointed : (LinkTarget.parse inner).domain.getD readIn = spec.fromDomain)
    (finds : FindsMoved toLowercase others spec.before (LinkTarget.parse inner))
    (unshadowed : isShadowed toLowercase spec (LinkTarget.parse inner).whole = false)
    (clear : Clear toLowercase others spec inner readIn writtenIn) :
    let written := LinkTarget.parse (writtenBracket toLowercase inner readIn writtenIn spec)
    ∃ how, Meaning toLowercase spec (LinkTarget.parse inner) how ∧
      written.domain.getD writtenIn = spec.toDomain ∧
      written.target = newTarget spec (LinkTarget.parse inner) how ∧
      (NamesWhole toLowercase spec (LinkTarget.parse inner) →
        written.whole = (LinkTarget.parse inner).whole) := by
  obtain ⟨how, names, meaning⟩ : ∃ how,
      namesMoved toLowercase spec (LinkTarget.parse inner) readIn = some how ∧
      Meaning toLowercase spec (LinkTarget.parse inner) how := by
    rw [namesMoved_of_pointed pointed]
    rcases named_of_finds spelled finds with ⟨answer, same⟩ | ⟨answer, same⟩
    · exact ⟨.permalink, answer, same⟩
    · exact ⟨.title, answer, same⟩
  have bracket := writtenBracket_of_names writtenIn unshadowed names
  simp only at bracket
  have points := newDomain_points spec (LinkTarget.parse inner) writtenIn
    (newTarget spec (LinkTarget.parse inner) how)
  intro written
  refine ⟨how, meaning, ?_⟩
  by_cases unchanged : newDomain spec (LinkTarget.parse inner) writtenIn
        (newTarget spec (LinkTarget.parse inner) how) = (LinkTarget.parse inner).domain ∧
      newTarget spec (LinkTarget.parse inner) how = (LinkTarget.parse inner).target
  · rw [if_pos unchanged] at bracket
    have same : written = LinkTarget.parse inner := congrArg LinkTarget.parse bracket
    rw [unchanged.1] at points
    rw [same]
    exact ⟨points, unchanged.2.symm, fun _ => rfl⟩
  · rw [if_neg unchanged] at bracket
    obtain ⟨lead, name, tail, trail, rest, composed⟩ := exists_composed inner
    obtain ⟨trimmed, kept, noBar, noHash, bare⟩ :=
      newTarget_spelled spelled folds composed pointed clear meaning unchanged
    have prefixRead := prefixOf_prefixed spelled trimmed kept noBar noHash bare
    obtain ⟨nameTrimmed, nameKept, nameBar, nameHash⟩ :=
      prefixed_spelled spelled (LinkTarget.parse inner) writtenIn trimmed kept noBar noHash
    have recomposed := composed.rewritten nameTrimmed nameBar
      (fun _ => Or.inl nameHash) fun _ => ⟨nameKept, nameHash⟩
    rw [← bracket] at recomposed
    obtain ⟨readDomain, readTarget, readWhole⟩ := recomposed.reads
    rw [prefixRead] at readDomain readTarget readWhole
    have target : written.target = newTarget spec (LinkTarget.parse inner) how := by
      rcases newDomain_cases spec (LinkTarget.parse inner) writtenIn
        (newTarget spec (LinkTarget.parse inner) how) with isNew | ⟨isNone, -⟩
      · rw [isNew] at readTarget
        exact readTarget
      · rw [isNone] at readTarget
        exact readTarget
    refine ⟨?_, target, ?_⟩
    · have domain : written.domain = newDomain spec (LinkTarget.parse inner) writtenIn
          (newTarget spec (LinkTarget.parse inner) how) := by
        apply readDomain.trans
        simp [Function.comp_def]
      rw [domain]
      exact points
    · intro whole
      have byTitle : how = .title := by
        cases how with
        | permalink => exact (meaning.2 whole).elim
        | title => rfl
      subst byTitle
      obtain ⟨isWhole, stays⟩ := whole_stays composed clear whole unchanged
      rw [if_neg stays] at readWhole
      rw [readWhole, isWhole]
      congr 2

end

/-- A link that finds the moved engram is not one the caller found shadowed. -/
theorem unshadowed_of_resolveDirect (alone : Alone toLowercase others spec)
    (shadows : ShadowsKnown toLowercase others spec target readIn)
    (found : resolveDirect target readIn (resolver toLowercase (others.insert spec.before)) =
      some spec.before.ref) : isShadowed toLowercase spec target.whole = false := by
  rw [Bool.eq_false_iff]
  intro shadowed
  obtain ⟨held, member, inDomain, whole, isWhole, same⟩ := shadows.mp shadowed
  have pointed := (findsMoved_of_resolveDirect alone.fromPermalink found).1
  rw [pointed] at inDomain
  rcases resolveWhole_insert others spec.before target readIn with
    ⟨-, -, other, isOther, title⟩ | asOthers
  · rw [isWhole, Option.some.injEq] at isOther
    subst isOther
    exact alone.fromTitle held member inDomain (same.trans title)
  · cases answer : resolveWhole target readIn (resolver toLowercase others) with
    | none =>
        rw [resolveWhole, isWhole, Option.bind_some, pointed] at answer
        simp only [resolver, Option.map_eq_none_iff, List.find?_eq_none] at answer
        have noOther := answer held member
        rw [inDomain, same] at noOther
        simp at noOther
    | some other =>
        obtain ⟨holder, holderMember, -, isOther, -⟩ := resolveWhole_other answer
        rw [resolveDirect, asOthers, answer, Option.some_or, Option.some.injEq] at found
        exact ref_ne_of_other (alone.fromPermalink holder holderMember)
          (isOther.trans found)

section

variable (spelled : Spelled spec)
include spelled

/-- Where a link that found the moved engram is written, it finds it again. -/
theorem resolve_writtenBracket (folds : ∀ text, toLowercase text = toLowercase [] → text = [])
    (alone : Alone toLowercase others spec)
    (shadows : ShadowsKnown toLowercase others spec (LinkTarget.parse inner) readIn)
    (found : resolveDirect (LinkTarget.parse inner) readIn
      (resolver toLowercase (others.insert spec.before)) = some spec.before.ref)
    (clear : Clear toLowercase others spec inner readIn writtenIn) :
    resolve (LinkTarget.parse (writtenBracket toLowercase inner readIn writtenIn spec))
      writtenIn (resolver toLowercase (others.insert spec.after)) =
        .resolved spec.after.ref := by
  obtain ⟨pointed, finds⟩ := findsMoved_of_resolveDirect alone.fromPermalink found
  have unshadowed := unshadowed_of_resolveDirect alone shadows found
  obtain ⟨how, meaning, inDomain, target, whole⟩ :=
    writtenBracket_reads spelled folds pointed finds unshadowed clear
  apply resolve_of_direct
  apply resolveDirect_of_findsMoved inDomain _ clear.whole
  by_cases byWhole : NamesWhole toLowercase spec (LinkTarget.parse inner)
  · obtain ⟨text, isWhole, same⟩ := byWhole
    exact .whole ⟨text, (whole ⟨text, isWhole, same⟩).trans isWhole, same⟩
  · cases how with
    | permalink => exact .permalink target
    | title =>
        obtain ⟨notPermalink, same⟩ := meaning.resolve_left byWhole
        refine .title ?_ (target ▸ same)
        rw [target]
        by_cases stays : spec.fromDomain = spec.toDomain
        · cases finds with
          | whole names => exact (byWhole names).elim
          | permalink isPermalink => exact (notPermalink isPermalink).elim
          | title free _ =>
              intro held member inside
              exact free held member (inside.trans stays.symm)
        · exact clear.target stays notPermalink byWhole

/-- What makes `relink_wikilink` take a link for one to the moved engram. -/
theorem namesMoved_eq_some (names : namesMoved toLowercase spec target readIn = some how) :
    target.domain.getD readIn = spec.fromDomain ∧
      (NamesWhole toLowercase spec target ∨ target.target = spec.fromPermalink ∨
        how = .title ∧ toLowercase target.target = toLowercase spec.title) := by
  have pointed : target.domain.getD readIn = spec.fromDomain := by
    unfold namesMoved at names
    split at names
    · next domain isDomain =>
        split at names
        · next same => rw [isDomain, Option.getD_some, same]
        · cases names
    · next isDomain =>
        split at names
        · next same => rw [isDomain, Option.getD_none, same]
        · cases names
  refine ⟨pointed, ?_⟩
  rw [namesMoved_of_pointed pointed] at names
  unfold named at names
  simp only [spelled.titleTrimmed.trim_eq] at names
  split at names
  · next whole =>
      rw [Option.any_eq_true_iff_get] at whole
      obtain ⟨isSome, same⟩ := whole
      exact Or.inl ⟨target.whole.get isSome, (Option.some_get isSome).symm,
        by simpa using (Bool.and_eq_true_iff.mp same).2⟩
  · split at names
    · next permalink => exact Or.inr (Or.inl permalink)
    · split at names
      · next title =>
          have isTitle := (Bool.and_eq_true_iff.mp title).2
          exact Or.inr (Or.inr ⟨(Option.some.inj names).symm, by simpa using isTitle⟩)
      · cases names

/-- A link to another engram is left as it is. -/
theorem writtenBracket_of_other
    (shadows : ShadowsKnown toLowercase others spec (LinkTarget.parse inner) readIn)
    (sides : writtenIn = readIn ∨ readIn = spec.fromDomain ∧ writtenIn = spec.toDomain)
    {found : ResolvedRef} (resolved : resolve (LinkTarget.parse inner) readIn
      (resolver toLowercase (others.insert spec.before)) = .resolved found)
    (other : found ≠ spec.before.ref) (gap : spec.fromDomain ≠ spec.toDomain →
      toLowercase (LinkTarget.parse inner).target = toLowercase spec.title →
      ∀ held ∈ others.held, held.domain = spec.fromDomain →
        held.permalink ≠ (LinkTarget.parse inner).target) :
    writtenBracket toLowercase inner readIn writtenIn spec = inner := by
  have unwritten : relinkWikilink toLowercase inner readIn writtenIn spec = none →
      writtenBracket toLowercase inner readIn writtenIn spec = inner := by
    intro none
    rw [writtenBracket, relinkBracket, relinkWikilink_targetPart, none]
    rfl
  cases shadowed : isShadowed toLowercase spec (LinkTarget.parse inner).whole with
  | true => exact unwritten (by simp [relinkWikilink, shadowed])
  | false =>
      cases names : namesMoved toLowercase spec (LinkTarget.parse inner) readIn with
      | none => exact unwritten (by simp [relinkWikilink, shadowed, names])
      | some how =>
          obtain ⟨pointed, meaning⟩ := namesMoved_eq_some spelled names
          have wholeFree : ∀ whole, (LinkTarget.parse inner).whole = some whole →
              ∀ held ∈ others.held, held.domain = spec.fromDomain →
                toLowercase held.title ≠ toLowercase whole := by
            intro whole isWhole held member inDomain same
            have known := shadows.mpr ⟨held, member, inDomain.trans pointed.symm, whole,
              isWhole, same⟩
            rw [shadowed] at known
            cases known
          have notFound : ¬ FindsMoved toLowercase others spec.before
              (LinkTarget.parse inner) := by
            intro finds
            have direct := resolveDirect_of_findsMoved pointed finds wholeFree
            rw [resolve_of_direct direct, Resolution.resolved.injEq] at resolved
            exact other resolved.symm
          rcases meaning with whole | permalink | ⟨rfl, title⟩
          · exact (notFound (.whole whole)).elim
          · exact (notFound (.permalink permalink)).elim
          · by_cases stays : spec.fromDomain = spec.toDomain
            · have bracket := writtenBracket_of_names writtenIn shadowed names
              rw [bracket, if_pos]
              refine ⟨?_, rfl⟩
              unfold newDomain
              cases isDomain : (LinkTarget.parse inner).domain with
              | none =>
                  rw [isDomain, Option.getD_none] at pointed
                  have same : writtenIn = spec.toDomain := by
                    rcases sides with same | ⟨-, same⟩
                    · rw [same, pointed, stays]
                    · exact same
                  simp [same]
              | some domain =>
                  rw [isDomain, Option.getD_some] at pointed
                  simp [stays, pointed]
            · exact (notFound (.title (gap stays title) title)).elim

end

end Written

end Move

/-- A move keeps a reference to the moved engram, and leaves a link to another
engram alone. -/
theorem move_keeps_references (toLowercase : Text → Text)
    (folds : ∀ text, toLowercase text = toLowercase [] → text = [])
    (others : LookupTable) (spec : Relink) (spelled : Spelled spec)
    (alone : Alone toLowercase others spec) (inner readIn writtenIn : Text)
    (sides : writtenIn = readIn ∨ readIn = spec.fromDomain ∧ writtenIn = spec.toDomain)
    (shadows : ShadowsKnown toLowercase others spec (LinkTarget.parse inner) readIn) :
    (resolveDirect (LinkTarget.parse inner) readIn
        (resolver toLowercase (others.insert spec.before)) = some spec.before.ref →
      Clear toLowercase others spec inner readIn writtenIn →
      resolve (LinkTarget.parse (writtenBracket toLowercase inner readIn writtenIn spec))
        writtenIn (resolver toLowercase (others.insert spec.after)) =
          .resolved spec.after.ref) ∧
      ∀ found, resolve (LinkTarget.parse inner) readIn
          (resolver toLowercase (others.insert spec.before)) = .resolved found →
        found ≠ spec.before.ref →
        (spec.fromDomain ≠ spec.toDomain →
          toLowercase (LinkTarget.parse inner).target = toLowercase spec.title →
          ∀ held ∈ others.held, held.domain = spec.fromDomain →
            held.permalink ≠ (LinkTarget.parse inner).target) →
        writtenBracket toLowercase inner readIn writtenIn spec = inner :=
  ⟨fun found clear => resolve_writtenBracket spelled folds alone shadows found clear,
    fun _ resolved other gap =>
      writtenBracket_of_other spelled shadows sides resolved other gap⟩

theorem asciiLowercase_folds (text : Text)
    (same : asciiLowercase text = asciiLowercase []) : text = [] := by
  simpa [asciiLowercase] using same

/-- A pump moves from `ops` to `eng`. -/
def pumpMove : Relink where
  fromDomain := "ops".toList
  fromPermalink := "p-12".toList
  title := "Pump 12".toList
  toDomain := "eng".toList
  toPermalink := "p-12".toList
  shadowed := []

def pumpOthers : LookupTable := ⟨[⟨"eng".toList, "p-13".toList, "Pump 13".toList⟩], []⟩

theorem move_keeps_references_pump :
    writtenBracket asciiLowercase "pump 12 #Seals|it".toList "ops".toList "ops".toList
        pumpMove = "eng:pump 12 #Seals|it".toList ∧
      resolve (LinkTarget.parse "eng:pump 12 #Seals|it".toList) "ops".toList
        (resolver asciiLowercase (pumpOthers.insert pumpMove.after)) =
          .resolved pumpMove.after.ref := by
  have written : writtenBracket asciiLowercase "pump 12 #Seals|it".toList "ops".toList
      "ops".toList pumpMove = "eng:pump 12 #Seals|it".toList := by decide +kernel
  have shadows : ShadowsKnown asciiLowercase pumpOthers pumpMove
      (LinkTarget.parse "pump 12 #Seals|it".toList) "ops".toList := by
    have bare : (LinkTarget.parse "pump 12 #Seals|it".toList).domain = none := by
      decide +kernel
    rw [ShadowsKnown, bare]
    refine iff_of_false (by decide +kernel) ?_
    rintro ⟨held, member, inDomain, -⟩
    rw [List.mem_singleton.mp member] at inDomain
    revert inDomain
    decide
  have clear : Clear asciiLowercase pumpOthers pumpMove "pump 12 #Seals|it".toList
      "ops".toList "ops".toList := by
    refine ⟨?_, ?_, by decide +kernel, ?_⟩
    · intro whole isWhole held member _
      have spelt : (LinkTarget.parse "eng:pump 12 #Seals|it".toList).whole =
          some "pump 12 #Seals".toList := by decide +kernel
      rw [written, spelt] at isWhole
      rw [List.mem_singleton.mp member, ← Option.some.inj isWhole]
      decide +kernel
    · intro _ _ _ held member _
      rw [List.mem_singleton.mp member]
      decide +kernel
    · intro hadPrefix
      exact (hadPrefix (by decide +kernel)).elim
  have kept := (move_keeps_references asciiLowercase asciiLowercase_folds pumpOthers pumpMove
    ⟨by decide, by decide, by decide, isTrimmed_of_trim_eq (by decide), by decide⟩
    (by decide +kernel) "pump 12 #Seals|it".toList "ops".toList "ops".toList (Or.inl rfl)
    shadows).1 (by decide +kernel) clear
  rw [written] at kept
  exact ⟨written, kept⟩

/-- A link finds the moved engram, no other engram has one of its names, and the
text written for the link finds it no more. -/
def Breaks (others : LookupTable) (spec : Relink) (inner readIn writtenIn : Text) : Prop :=
  Alone asciiLowercase others spec ∧
    resolveDirect (LinkTarget.parse inner) readIn
      (resolver asciiLowercase (others.insert spec.before)) = some spec.before.ref ∧
    resolve (LinkTarget.parse (writtenBracket asciiLowercase inner readIn writtenIn spec))
      writtenIn (resolver asciiLowercase (others.insert spec.after)) ≠
        .resolved spec.after.ref

instance (others : LookupTable) (spec : Relink) (inner readIn writtenIn : Text) :
    Decidable (Breaks others spec inner readIn writtenIn) :=
  inferInstanceAs (Decidable (_ ∧ _ ∧ _))

/-- A link finds another engram and is rewritten all the same. -/
def Strays (others : LookupTable) (spec : Relink) (inner readIn writtenIn : Text)
    (found : ResolvedRef) : Prop :=
  Alone asciiLowercase others spec ∧ found ≠ spec.before.ref ∧
    resolve (LinkTarget.parse inner) readIn
      (resolver asciiLowercase (others.insert spec.before)) = .resolved found ∧
    writtenBracket asciiLowercase inner readIn writtenIn spec ≠ inner

instance (others : LookupTable) (spec : Relink) (inner readIn writtenIn : Text)
    (found : ResolvedRef) : Decidable (Strays others spec inner readIn writtenIn found) :=
  inferInstanceAs (Decidable (_ ∧ _ ∧ _ ∧ _))

/-- A move from `ops` to `eng`, spelled out. -/
def moveOf (permalink title newPermalink : String) (shadowed : List String) : Relink where
  fromDomain := "ops".toList
  fromPermalink := permalink.toList
  title := title.toList
  toDomain := "eng".toList
  toPermalink := newPermalink.toList
  shadowed := shadowed.map String.toList

/-- One other engram. -/
def besides (domain permalink title : String) : LookupTable :=
  ⟨[⟨domain.toList, permalink.toList, title.toList⟩], []⟩

/-- A reference is lost, or a link to another engram rewritten, when: the title is
another engram's permalink where the moved one was, or where it is; the written
whole text is another title there; the title starts with a `#`; a whole title
with a colon loses its prefix; the shadowed texts are not the ones there are;
the new permalink is none; the title has blanks around it; there is no title. -/
theorem move_loses_references :
    Strays (besides "ops" "notes" "Other") (moveOf "g/n" "Notes" "g/n" []) "notes".toList
        "ops".toList "ops".toList ⟨"ops".toList, "notes".toList⟩ ∧
      Breaks (besides "eng" "notes" "Other") (moveOf "g/n" "Notes" "g/n" []) "notes".toList
        "ops".toList "ops".toList ∧
      Breaks (besides "eng" "x" "C#Basics") (moveOf "c" "Sea" "c" []) "c#Basics".toList
        "ops".toList "ops".toList ∧
      Breaks ⟨[], []⟩ (moveOf "s" "#setup" "s" []) "#setup".toList "ops".toList
        "ops".toList ∧
      Breaks ⟨[], []⟩ (moveOf "s" "C#x:y" "s" []) "ops:C#x:y".toList "eng".toList
        "eng".toList ∧
      Breaks ⟨[], []⟩ (moveOf "old" "Old" "new" ["old#x"]) "old#x".toList "ops".toList
        "ops".toList ∧
      Strays (besides "ops" "x" "old#x") (moveOf "old" "Old" "new" []) "old#x".toList
        "ops".toList "ops".toList ⟨"ops".toList, "x".toList⟩ ∧
      Breaks ⟨[], []⟩ (moveOf "old" "Old" "a#b" []) "old".toList "ops".toList "ops".toList ∧
      Breaks ⟨[], []⟩ (moveOf "old" " old#x " "new" []) "old#x".toList "ops".toList
        "ops".toList ∧
      Breaks ⟨[], []⟩ (moveOf "old" "" "new" []) [] "ops".toList "ops".toList := by
  decide +kernel

end Crystalline.Links
