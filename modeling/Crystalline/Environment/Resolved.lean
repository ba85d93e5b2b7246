import Crystalline.Environment.Attaching

/-!
# The four loops over the variables of domains

The loops take their variables exactly when these are admitted, which is said of each
variable and of the fragments that are defined.  Where no two variables name one
domain, each name is reached by one variable of each attachment at most, and the
domains are the same in every order.
-/

namespace Crystalline.Environment

open Text
open Keyed (collect lookup_collect lookup_collect_perm lookup_collect_keys lookup_collect_of_mem
  mem_of_lookup_collect)

variable {machine : Machine}

/-- Some variable defines the fragment. -/
def Known (domainVars : VarPairs) (fragment : Text) : Prop :=
  ∃ var ∈ domainVars, fragmentOf var.1 = fragment

def definedDomains (machine : Machine) (domainVars : VarPairs) : Map EnvDomain :=
  collect (domainVars.map (domainOf machine))

def definedFragments (domainVars : VarPairs) : Map Text :=
  collect (domainVars.map fragmentNameOf)

variable {domainVars : VarPairs} {vars : VarPairs} {domain : EnvDomain} {kind : VarKind}

theorem lookup_definedFragments {fragment name : Text} :
    (definedFragments domainVars).lookup fragment = some name ↔
      Known domainVars fragment ∧ name = domainName fragment := by
  have pairs : domainVars.map fragmentNameOf =
      (domainVars.map fun var => fragmentOf var.1).map fun key => (key, domainName key) := by
    rw [List.map_map]
    rfl
  rw [definedFragments, pairs, lookup_collect_keys]
  have known : fragment ∈ domainVars.map (fun var => fragmentOf var.1) ↔
      Known domainVars fragment := List.mem_map
  split_ifs with member
  · rw [Option.some.injEq]
    exact ⟨fun same => ⟨known.mp member, same.symm⟩, fun same => same.2.symm⟩
  · refine iff_of_false (by simp) fun same => member (known.mpr same.1)

theorem recorded_defined (machine : Machine) (domainVars : VarPairs) :
    Recorded (definedFragments domainVars) (definedDomains machine domainVars) := by
  intro base name found
  obtain ⟨⟨var, member, rfl⟩, rfl⟩ := lookup_definedFragments.mp found
  apply lookup_collect_of_mem
  rw [List.map_map]
  exact List.mem_map_of_mem member

variable {attachment : Attachment} {domainVars originVars reviewVars readersVars : VarPairs}
  {var : Text × Text} {domain changed : EnvDomain} {name : Text}
  {domainVars' originVars' reviewVars' readersVars' : VarPairs}

theorem Recorded.attach {fragments : Map Text} {domains out : Map EnvDomain}
    (recorded : Recorded fragments domains)
    (attached : attachment.attach fragments domains vars = .ok out) : Recorded fragments out := by
  intro base name found
  obtain ⟨domain, held⟩ := recorded base name found
  have kept := attach_keeps (fun _ _ => True) (fun _ => trivial) (fun _ _ => trivial)
    (fun _ => trivial) recorded attached name
  rw [held] at kept
  cases lookup : out.lookup name with
  | none =>
      rw [lookup] at kept
      cases kept
  | some final => exact ⟨final, rfl⟩

theorem bind_eq_ok {α β : Type} {first : Except Text α} {next : α → Except Text β} {out : β} :
    first.bind next = .ok out ↔ ∃ value, first = .ok value ∧ next value = .ok out := by
  cases first with
  | error error => exact iff_of_false (by rintro ⟨⟩) (by rintro ⟨_, ⟨⟩, -⟩)
  | ok value => exact ⟨fun found => ⟨value, rfl, found⟩, by rintro ⟨_, ⟨⟩, found⟩; exact found⟩

theorem isOk_iff {α : Type} {result : Except Text α} :
    result.isOk = true ↔ ∃ out, result = .ok out := by
  cases result with
  | error error => exact iff_of_false (by rintro ⟨⟩) (by rintro ⟨_, ⟨⟩⟩)
  | ok value => exact iff_of_true rfl ⟨value, rfl⟩

/-- The domains, once every defining variable is one. -/
theorem resolveEnvDomains_eq_ok {out : Map EnvDomain} :
    resolveEnvDomains machine domainVars originVars reviewVars readersVars = .ok out ↔
      (∀ var ∈ domainVars, Defines var) ∧ ∃ located reviewed,
        originAttachment.attach (definedFragments domainVars) (definedDomains machine domainVars)
          originVars = .ok located ∧
        reviewAttachment.attach (definedFragments domainVars) located reviewVars = .ok reviewed ∧
        readersAttachment.attach (definedFragments domainVars) reviewed readersVars = .ok out := by
  rw [resolveEnvDomains, bind_eq_ok]
  rcases define_eq machine {} domainVars with ⟨all, defined⟩ | ⟨⟨var, member, fails⟩, refused⟩
  · rw [defined]
    constructor
    · rintro ⟨_, ⟨⟩, found⟩
      obtain ⟨located, first, found⟩ := bind_eq_ok.mp found
      obtain ⟨reviewed, second, third⟩ := bind_eq_ok.mp found
      exact ⟨all, located, reviewed, first, second, third⟩
    · rintro ⟨-, located, reviewed, first, second, third⟩
      exact ⟨_, rfl, bind_eq_ok.mpr ⟨located, first, bind_eq_ok.mpr ⟨reviewed, second, third⟩⟩⟩
  · refine iff_of_false ?_ fun all => fails (all.1 var member)
    rintro ⟨defined, found, -⟩
    rw [found] at refused
    cases refused

theorem origin_apply :
    originAttachment.apply var domain = .ok changed ↔ ∃ origin, parseEnvOrigin var.2 = .ok origin ∧
      changed = { domain with entry := { domain.entry with origin := some origin } } := by
  change setOrigin var.1 (originAttachment.base var.1) var.2 domain = .ok changed ↔ _
  unfold setOrigin
  cases parseEnvOrigin var.2 with
  | error error => exact iff_of_false (by rintro ⟨⟩) (by rintro ⟨_, ⟨⟩, -⟩)
  | ok origin =>
      constructor
      · rintro ⟨⟩
        exact ⟨origin, rfl, rfl⟩
      · rintro ⟨_, ⟨⟩, rfl⟩
        rfl

theorem review_apply :
    reviewAttachment.apply var domain = .ok changed ↔ trim var.2 = "overlay".toList ∧
      changed = { domain with entry := { domain.entry with review := some .overlay } } := by
  change setReview var.1 (reviewAttachment.base var.1) var.2 domain = .ok changed ↔ _
  unfold setReview
  by_cases overlay : trim var.2 = "overlay".toList
  · have plain : (trim var.2 != "overlay".toList) = false := by
      rw [overlay]
      exact bne_self_eq_false _
    rw [plain]
    constructor
    · rintro ⟨⟩
      exact ⟨overlay, rfl⟩
    · rintro ⟨-, rfl⟩
      rfl
  · rw [bne_iff_ne.mpr overlay]
    exact iff_of_false (by rintro ⟨⟩) fun both => overlay both.1

theorem readers_apply :
    readersAttachment.apply var domain = .ok changed ↔
      domain.entry.origin.isSome = true ∧ ∃ readers, Readers.parse var.2 = some readers ∧
        changed = { domain with readers := some readers } := by
  change setReaders var.1 (readersAttachment.base var.1) var.2 domain = .ok changed ↔ _
  unfold setReaders
  cases origin : domain.entry.origin with
  | none => simp
  | some located =>
      cases Readers.parse var.2 with
      | none => simp
      | some readers => simp [eq_comm]

/-- The variables of a domain are taken: a statement about each of them and the
fragments that are defined, in no order. -/
structure Admitted (domainVars originVars reviewVars readersVars : VarPairs) : Prop where
  defines : ∀ var ∈ domainVars, Defines var
  origins : ∀ var ∈ originVars, Known domainVars (originAttachment.base var.1) ∧
    (parseEnvOrigin var.2).isOk = true
  reviews : ∀ var ∈ reviewVars, Known domainVars (reviewAttachment.base var.1) ∧
    trim var.2 = "overlay".toList
  readers : ∀ var ∈ readersVars, Known domainVars (readersAttachment.base var.1) ∧
    (Readers.parse var.2).isSome = true ∧
    ∃ origin ∈ originVars, Known domainVars (originAttachment.base origin.1) ∧
      domainName (originAttachment.base origin.1) = domainName (readersAttachment.base var.1)

theorem target_eq_some :
    attachment.target (definedFragments domainVars) var = some name ↔
      Known domainVars (attachment.base var.1) ∧ name = domainName (attachment.base var.1) :=
  lookup_definedFragments

theorem origin_of_defined (found : (definedDomains machine domainVars).lookup name = some domain) :
    ∃ var ∈ domainVars, domainOf machine var = (name, domain) ∧ domain.entry.origin = none := by
  obtain ⟨var, member, same⟩ := List.mem_map.mp (mem_of_lookup_collect found)
  refine ⟨var, member, same, ?_⟩
  obtain rfl := congrArg Prod.snd same
  rfl

theorem located_iff {domainVars originVars : VarPairs} {located : Map EnvDomain}
    (attached : originAttachment.attach (definedFragments domainVars)
      (definedDomains machine domainVars) originVars = .ok located)
    (found : located.lookup name = some domain) :
    domain.entry.origin.isSome = true ↔
      ∃ var ∈ originVars,
        originAttachment.target (definedFragments domainVars) var = some name := by
  have recorded := recorded_defined machine domainVars
  constructor
  · intro isLocated
    by_contra none
    have others : ∀ var ∈ originVars,
        originAttachment.target (definedFragments domainVars) var ≠ some name :=
      fun var member reaches => none ⟨var, member, reaches⟩
    rw [attach_other recorded attached others] at found
    obtain ⟨-, -, -, noOrigin⟩ := origin_of_defined found
    rw [noOrigin] at isLocated
    cases isLocated
  · rintro ⟨var, member, reaches⟩
    have marks {var : Text × Text} {domain changed : EnvDomain}
        (applies : originAttachment.apply var domain = .ok changed) :
        changed.entry.origin.isSome = true := by
      obtain ⟨origin, -, rfl⟩ := origin_apply.mp applies
      rfl
    exact attach_marks (fun domain => domain.entry.origin.isSome = true) marks recorded attached
      member reaches found

theorem origin_fits (var : Text × Text) (domain : EnvDomain) :
    (originAttachment.apply var domain).isOk = true ↔ (parseEnvOrigin var.2).isOk = true := by
  rw [isOk_iff, isOk_iff]
  constructor
  · rintro ⟨changed, applies⟩
    obtain ⟨origin, parsed, -⟩ := origin_apply.mp applies
    exact ⟨origin, parsed⟩
  · rintro ⟨origin, parsed⟩
    exact ⟨_, origin_apply.mpr ⟨origin, parsed, rfl⟩⟩

theorem review_fits (var : Text × Text) (domain : EnvDomain) :
    (reviewAttachment.apply var domain).isOk = true ↔ trim var.2 = "overlay".toList := by
  rw [isOk_iff]
  constructor
  · rintro ⟨changed, applies⟩
    exact (review_apply.mp applies).1
  · intro overlay
    exact ⟨_, review_apply.mpr ⟨overlay, rfl⟩⟩

theorem readers_fits (var : Text × Text) (domain : EnvDomain) :
    (readersAttachment.apply var domain).isOk = true ↔
      domain.entry.origin.isSome = true ∧ (Readers.parse var.2).isSome = true := by
  rw [isOk_iff, Option.isSome_iff_exists (x := Readers.parse var.2)]
  constructor
  · rintro ⟨changed, applies⟩
    obtain ⟨located, readers, parsed, -⟩ := readers_apply.mp applies
    exact ⟨located, readers, parsed⟩
  · rintro ⟨located, readers, parsed⟩
    exact ⟨_, readers_apply.mpr ⟨located, readers, parsed, rfl⟩⟩

theorem readers_stable {one : Text × Text}
    (applies : readersAttachment.apply one domain = .ok changed) (other : Text × Text) :
    (changed.entry.origin.isSome = true ∧ (Readers.parse other.2).isSome = true) ↔
      (domain.entry.origin.isSome = true ∧ (Readers.parse other.2).isSome = true) := by
  obtain ⟨-, readers, -, rfl⟩ := readers_apply.mp applies
  exact Iff.rfl

section

variable {domainVars vars : VarPairs} {domains : Map EnvDomain}
  (recorded : Recorded (definedFragments domainVars) domains)
include recorded

/-- The loop over the variables of an attachment, on domains of these fragments. -/
theorem attach_isOk_known {fits : Text × Text → EnvDomain → Prop}
    (decides : ∀ var domain, (attachment.apply var domain).isOk = true ↔ fits var domain)
    (stable : ∀ {one domain changed}, attachment.apply one domain = .ok changed →
      ∀ other, fits other changed ↔ fits other domain) :
    (attachment.attach (definedFragments domainVars) domains vars).isOk = true ↔
      ∀ var ∈ vars, Known domainVars (attachment.base var.1) ∧
        ∃ domain, domains.lookup (domainName (attachment.base var.1)) = some domain ∧
          fits var domain := by
  rw [attach_isOk fits decides stable recorded]
  refine forall₂_congr fun var _ => ?_
  constructor
  · rintro ⟨name, domain, reaches, found, fit⟩
    obtain ⟨known, rfl⟩ := target_eq_some.mp reaches
    exact ⟨known, domain, found, fit⟩
  · rintro ⟨known, domain, found, fit⟩
    exact ⟨_, domain, target_eq_some.mpr ⟨known, rfl⟩, found, fit⟩

theorem attach_isOk_value (fits : Text → Prop)
    (decides : ∀ var domain, (attachment.apply var domain).isOk = true ↔ fits var.2) :
    (attachment.attach (definedFragments domainVars) domains vars).isOk = true ↔
      ∀ var ∈ vars, Known domainVars (attachment.base var.1) ∧ fits var.2 := by
  have taken := @attach_isOk_known attachment domainVars vars domains recorded
    (fun var _ => fits var.2) decides (fun _ _ => Iff.rfl)
  rw [taken]
  refine forall₂_congr fun var _ => and_congr_right fun known => ?_
  obtain ⟨domain, found⟩ := recorded _ _ (lookup_definedFragments.mpr ⟨known, rfl⟩)
  exact ⟨fun fit => fit.elim fun _ both => both.2, fun fit => ⟨domain, found, fit⟩⟩

end

/-- A domain in review has an origin exactly when a variable gives it one. -/
theorem reviewed_iff {domainVars originVars reviewVars : VarPairs}
    {located reviewed : Map EnvDomain}
    (first : originAttachment.attach (definedFragments domainVars)
      (definedDomains machine domainVars) originVars = .ok located)
    (second : reviewAttachment.attach (definedFragments domainVars) located reviewVars =
      .ok reviewed) (found : reviewed.lookup name = some domain) :
    domain.entry.origin.isSome = true ↔
      ∃ origin ∈ originVars, Known domainVars (originAttachment.base origin.1) ∧
        domainName (originAttachment.base origin.1) = name := by
  have recorded := (recorded_defined machine domainVars).attach first
  have kept := attach_keeps (fun before after => after.entry.origin = before.entry.origin)
    (fun _ => rfl) (fun one two => Eq.trans two one)
    (fun applies => by
      obtain ⟨-, rfl⟩ := review_apply.mp applies
      rfl)
    recorded second name
  rw [found] at kept
  cases before : located.lookup name with
  | none =>
      rw [before] at kept
      cases kept
  | some earlier =>
      rw [before] at kept
      cases kept with
      | some same =>
          rw [same, located_iff first before]
          refine exists_congr fun var => and_congr_right fun _ => ?_
          rw [target_eq_some, eq_comm (a := name)]

/-- The four loops take their variables exactly when these are admitted. -/
theorem resolveEnvDomains_isOk :
    (resolveEnvDomains machine domainVars originVars reviewVars readersVars).isOk = true ↔
      Admitted domainVars originVars reviewVars readersVars := by
  have recorded := recorded_defined machine domainVars
  have locating := @attach_isOk_value originAttachment domainVars originVars _ recorded
    (fun value => (parseEnvOrigin value).isOk = true) origin_fits
  have reviewing {located : Map EnvDomain}
      (held : Recorded (definedFragments domainVars) located) :=
    @attach_isOk_value reviewAttachment domainVars reviewVars located held
      (fun value => trim value = "overlay".toList) review_fits
  constructor
  · intro isOk
    obtain ⟨out, resolved⟩ := isOk_iff.mp isOk
    obtain ⟨all, located, reviewed, first, second, third⟩ := resolveEnvDomains_eq_ok.mp resolved
    have recordedFirst := recorded.attach first
    have recordedSecond := recordedFirst.attach second
    refine ⟨all, locating.mp (isOk_iff.mpr ⟨_, first⟩),
      (reviewing recordedFirst).mp (isOk_iff.mpr ⟨_, second⟩), ?_⟩
    have taken := (attach_isOk_known recordedSecond readers_fits readers_stable).mp
      (isOk_iff.mpr ⟨_, third⟩)
    intro var member
    obtain ⟨known, domain, found, hasOrigin, parsed⟩ := taken var member
    exact ⟨known, parsed, (reviewed_iff first second found).mp hasOrigin⟩
  · intro admitted
    obtain ⟨located, first⟩ := isOk_iff.mp (locating.mpr admitted.origins)
    have recordedFirst := recorded.attach first
    obtain ⟨reviewed, second⟩ := isOk_iff.mp ((reviewing recordedFirst).mpr admitted.reviews)
    have recordedSecond := recordedFirst.attach second
    have reading : (readersAttachment.attach (definedFragments domainVars) reviewed
        readersVars).isOk = true := by
      apply (attach_isOk_known recordedSecond readers_fits readers_stable).mpr
      intro var member
      obtain ⟨known, parsed, located⟩ := admitted.readers var member
      obtain ⟨domain, found⟩ := recordedSecond _ _ (lookup_definedFragments.mpr ⟨known, rfl⟩)
      exact ⟨known, domain, found, (reviewed_iff first second found).mpr located, parsed⟩
    obtain ⟨out, third⟩ := isOk_iff.mp reading
    exact isOk_iff.mpr ⟨out, resolveEnvDomains_eq_ok.mpr
      ⟨admitted.defines, located, reviewed, first, second, third⟩⟩

theorem Admitted.perm (domains : domainVars.Perm domainVars')
    (origins : originVars.Perm originVars') (reviews : reviewVars.Perm reviewVars')
    (readers : readersVars.Perm readersVars')
    (admitted : Admitted domainVars originVars reviewVars readersVars) :
    Admitted domainVars' originVars' reviewVars' readersVars' := by
  have known {fragment : Text} (held : Known domainVars fragment) : Known domainVars' fragment :=
    held.imp fun _ both => ⟨domains.subset both.1, both.2⟩
  refine ⟨?_, ?_, ?_, ?_⟩
  · exact fun var member => admitted.defines var (domains.symm.subset member)
  · exact fun var member => (admitted.origins var (origins.symm.subset member)).imp_left known
  · exact fun var member => (admitted.reviews var (reviews.symm.subset member)).imp_left known
  · intro var member
    obtain ⟨held, parsed, origin, among, originKnown, named⟩ :=
      admitted.readers var (readers.symm.subset member)
    exact ⟨known held, parsed, origin, origins.subset among, known originKnown, named⟩

/-- No two defining variables name one domain. -/
def Apart (domainVars : VarPairs) : Prop :=
  ∀ var ∈ domainVars, ∀ other ∈ domainVars,
    domainName (fragmentOf var.1) = domainName (fragmentOf other.1) → var = other

theorem Apart.single (reads : attachment.Reads kind) {domainVars vars : VarPairs}
    (apart : Apart domainVars) (kinds : ∀ var ∈ vars, varKind var.1 = kind)
    (distinct : (vars.map Prod.fst).Nodup) :
    attachment.Single (definedFragments domainVars) vars := by
  intro name var member other otherMember reaches otherReaches
  obtain ⟨⟨first, firstMember, firstBase⟩, named⟩ := target_eq_some.mp reaches
  obtain ⟨⟨second, secondMember, secondBase⟩, otherNamed⟩ := target_eq_some.mp otherReaches
  have same := apart first firstMember second secondMember
    (by rw [firstBase, secondBase, ← named, otherNamed])
  have names := reads.eq_of_base (kinds var member) (kinds other otherMember)
    (by rw [← firstBase, same, secondBase])
  exact List.inj_on_of_nodup_map distinct member otherMember names

theorem Apart.nodup (apart : Apart domainVars) (distinct : domainVars.Nodup) :
    ((domainVars.map (domainOf machine)).map Prod.fst).Nodup := by
  rw [List.map_map]
  exact List.Nodup.map_on (fun var member other otherMember same =>
    apart var member other otherMember same) distinct

theorem lookup_definedFragments_perm {domainVars order : VarPairs} (perm : order.Perm domainVars)
    (fragment : Text) : (definedFragments order).lookup fragment =
      (definedFragments domainVars).lookup fragment := by
  refine Option.ext fun name => ?_
  rw [lookup_definedFragments, lookup_definedFragments]
  refine and_congr_left fun _ => exists_congr fun var => ?_
  rw [perm.mem_iff]

/-- The variables for the domains, as the first pass leaves them. -/
structure Sorted (vars : VarPairs) (kind : VarKind) : Prop where
  kinds : ∀ var ∈ vars, varKind var.1 = kind
  distinct : (vars.map Prod.fst).Nodup

theorem Sorted.nodup (sorted : Sorted vars kind) : vars.Nodup :=
  sorted.distinct.of_map Prod.fst

section

variable (isDomain : Sorted domainVars .domain) (isOrigin : Sorted originVars .origin)
  (isReview : Sorted reviewVars .review) (isReaders : Sorted readersVars .readers)
include isDomain isOrigin isReview isReaders

theorem resolveEnvDomains_perm (domains : domainVars'.Perm domainVars)
    (origins : originVars'.Perm originVars) (reviews : reviewVars'.Perm reviewVars)
    (readers : readersVars'.Perm readersVars) (apart : Apart domainVars) {out out' : Map EnvDomain}
    (resolved : resolveEnvDomains machine domainVars originVars reviewVars readersVars = .ok out)
    (resolved' : resolveEnvDomains machine domainVars' originVars' reviewVars' readersVars' =
      .ok out') (name : Text) : out'.lookup name = out.lookup name := by
  obtain ⟨-, located, reviewed, first, second, third⟩ := resolveEnvDomains_eq_ok.mp resolved
  obtain ⟨-, located', reviewed', first', second', third'⟩ := resolveEnvDomains_eq_ok.mp resolved'
  have recorded := recorded_defined machine domainVars
  have recordedFirst := recorded.attach first
  have fragments := lookup_definedFragments_perm domains
  have defined (name : Text) : (definedDomains machine domainVars').lookup name =
      (definedDomains machine domainVars).lookup name := by
    refine (lookup_collect_perm (domains.symm.map (domainOf machine)) ?_ name).symm
    exact apart.nodup isDomain.nodup
  have locates := attach_perm fragments defined origins isOrigin.nodup
    (apart.single origin_reads isOrigin.kinds isOrigin.distinct) recorded first first'
  have reviewing := attach_perm fragments locates reviews isReview.nodup
    (apart.single review_reads isReview.kinds isReview.distinct) recordedFirst second second'
  exact attach_perm fragments reviewing readers isReaders.nodup
    (apart.single readers_reads isReaders.kinds isReaders.distinct)
    (recordedFirst.attach second) third third' name

/-- What the variables make of the domain that one of them defines. -/
theorem resolveEnvDomains_makes (apart : Apart domainVars) {out : Map EnvDomain}
    (resolved : resolveEnvDomains machine domainVars originVars reviewVars readersVars = .ok out)
    (member : var ∈ domainVars) :
    ∃ located reviewed domain,
      out.lookup (domainName (fragmentOf var.1)) = some domain ∧
      originAttachment.Gives (definedFragments domainVars) originVars
        (domainName (fragmentOf var.1)) (domainOf machine var).2 located ∧
      reviewAttachment.Gives (definedFragments domainVars) reviewVars
        (domainName (fragmentOf var.1)) located reviewed ∧
      readersAttachment.Gives (definedFragments domainVars) readersVars
        (domainName (fragmentOf var.1)) reviewed domain := by
  obtain ⟨-, located, reviewed, first, second, third⟩ := resolveEnvDomains_eq_ok.mp resolved
  have recorded := recorded_defined machine domainVars
  have recordedFirst := recorded.attach first
  have defined : (definedDomains machine domainVars).lookup (domainName (fragmentOf var.1)) =
      some (domainOf machine var).2 :=
    (lookup_collect (apart.nodup isDomain.nodup)).mpr (List.mem_map_of_mem member)
  obtain ⟨one, foundOne, givesOne⟩ := attach_gives recorded first isOrigin.nodup
    (apart.single origin_reads isOrigin.kinds isOrigin.distinct _) defined
  obtain ⟨two, foundTwo, givesTwo⟩ := attach_gives recordedFirst second isReview.nodup
    (apart.single review_reads isReview.kinds isReview.distinct _) foundOne
  obtain ⟨three, foundThree, givesThree⟩ := attach_gives (recordedFirst.attach second) third
    isReaders.nodup (apart.single readers_reads isReaders.kinds isReaders.distinct _) foundTwo
  exact ⟨one, two, three, foundThree, givesOne, givesTwo, givesThree⟩

end

end Crystalline.Environment
