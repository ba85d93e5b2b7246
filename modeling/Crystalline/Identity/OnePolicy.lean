import Crystalline.Identity.BulkSound
import Crystalline.Identity.CoverLeaks

/-!
# Five answers, one policy

The screen of a visibility, the rights of a listing and the readers of a domain
are asked in different places and read different tables.  On one trimmed name
they all say what the single question about the domain says.
-/

namespace Crystalline.Identity

open Text Keyed

namespace DomainAccess

variable {access : DomainAccess} {scope : Scope} {domain : Text} {principal : Principal}

theorem user_of_listed {auth : AuthStore} {user : User} (listed : user ∈ auth.listUsers) :
    auth.user user.name = .ok (some user) := by
  obtain ⟨row, member, rfl⟩ := List.mem_map.mp listed
  have held : auth.users.lookup row.1 = some row.2 := AList.mem_lookup_iff.mpr member
  have folded := auth.folded row.1 (AList.lookup_isSome.mp (Option.isSome_of_eq_some held))
  rw [AuthStore.user, folded]
  change Except.ok ((auth.users.lookup row.1).map _) = _
  rw [held]
  rfl

theorem principal_of_listed {user : User} (listed : user ∈ access.auth.listUsers)
    (live : user.disabled = false) :
    access.principal (.user user.name false) = .ok user.asPrincipal := by
  rw [principal_user, user_of_listed listed]
  change Except.ok (if user.disabled = true then _ else _) = _
  rw [live]
  rfl

theorem mem_engramReaders {side : ReaderSide} (named : trim domain ≠ [])
    (found : access.readerSide access.governance domain (access.auth.aclOf domain).isSome =
      .ok (some side)) {name : Text} :
    name ∈ access.engramReaders (access.auth.aclOf domain) side ↔
      ∃ user ∈ access.auth.listUsers, user.name = name ∧ user.disabled = false ∧
        access.ReadsEngrams (.user name false) domain := by
  rw [engramReaders, List.mem_map]
  constructor
  · rintro ⟨user, kept, rfl⟩
    obtain ⟨listed, both⟩ := List.mem_filter.mp kept
    rw [Bool.and_eq_true, Bool.not_eq_true'] at both
    exact ⟨user, listed, rfl, both.1, (readsEngrams_iff
      (principal_of_listed listed both.1) named).mpr ((readsSource_iff named found user).mp both.2)⟩
  · rintro ⟨user, listed, rfl, live, reads⟩
    refine ⟨user, List.mem_filter.mpr ⟨listed, ?_⟩, rfl⟩
    rw [Bool.and_eq_true, Bool.not_eq_true']
    exact ⟨live, (readsSource_iff named found user).mpr
      ((readsEngrams_iff (principal_of_listed listed live) named).mp reads)⟩

/-- Everyone who reads shared domains reads this one: it has no acl row, and
where GitHub governs it its repository is open and public. -/
structure ReadByEveryone (access : DomainAccess) (domain : Text) : Prop where
  isShared : (access.auth.aclOf domain).isSome = false
  isPublic : ∀ governor, access.governance.of domain = some governor →
    access.governance.closes domain = false ∧ governor.repositoryPublic (trim domain) = true

theorem readersOf_cases (named : trim domain ≠ [])
    (known : ∀ governor, access.governance.of domain = some governor →
      (governor.readers (trim domain)).isSome = true) :
    (∃ side, access.readerSide access.governance domain (access.auth.aclOf domain).isSome =
        .ok (some side) ∧
      access.readersOf domain =
        .ok (some (access.engramReaders (access.auth.aclOf domain) side))) ∨
    access.readersOf domain = .ok none ∧ access.ReadByEveryone domain := by
  unfold readersOf readerSide
  rw [AuthStore.domainVisibility_of_named named]
  dsimp only [bind, Except.bind, pure, Except.pure]
  cases governs : access.governance.of domain with
  | none =>
      dsimp only
      cases isAcl : access.auth.aclOf domain with
      | none =>
          refine .inr ⟨rfl, by rw [isAcl]; rfl, fun governor found => ?_⟩
          rw [governs] at found
          cases found
      | some acl =>
          obtain ⟨rows, isRows, -⟩ := access.memberRows_of_named named
          rw [isRows]
          exact .inl ⟨.members rows, rfl, rfl⟩
  | some governor =>
      dsimp only
      cases closed : access.governance.closes domain with
      | true => exact .inl ⟨.closed, rfl, rfl⟩
      | false =>
          cases isAcl : access.auth.aclOf domain with
          | none =>
              cases isPublic : governor.repositoryPublic (trim domain) with
              | true =>
                  refine .inr ⟨rfl, by rw [isAcl]; rfl, fun other found => ?_⟩
                  obtain rfl := Option.some.inj (governs.symm.trans found)
                  exact ⟨closed, isPublic⟩
              | false => exact .inl ⟨.governed [], rfl, rfl⟩
          | some acl =>
              obtain ⟨names, listed⟩ := Option.isSome_iff_exists.mp (known governor governs)
              rw [listed]
              exact .inl ⟨.governed names, rfl, rfl⟩

/-- An open shared repository is read by every caller but an account at instance
knowledge none. -/
theorem read_le_githubInput_public {governor : KnowledgeGovernor} (principal : Principal)
    (level : Option MemberLevel) (isPublic : governor.repositoryPublic domain = true) :
    DomainRight.read ≤ principal.decide none level
        (some (githubInput governor principal domain false false)) ↔
      readsNoShared principal = false := by
  have raised : ∀ github : DomainRight, DomainRight.read ≤
      if DomainRight.read < github then github else DomainRight.read := by
    intro github
    split
    · next above => exact above.le
    · exact le_rfl
  cases principal with
  | unrestricted => exact iff_of_true DomainRight.read_le_own rfl
  | anonymous =>
      refine iff_of_true ?_ rfl
      change DomainRight.read ≤ if governor.repositoryPublic domain then .read else .none
      rw [isPublic]
      exact le_refl DomainRight.read
  | account name role reflection =>
    cases role with
    | none => exact iff_of_false DomainRight.not_read_le_none Bool.noConfusion
    | viewer => exact iff_of_true (raised _) rfl
    | editor => exact iff_of_true (raised _) rfl
    | admin => exact iff_of_true DomainRight.read_le_own rfl

theorem ReadByEveryone.held (stored : StoredName domain) (everyone : access.ReadByEveryone domain) :
    DomainRight.read ≤ access.heldRight principal domain ↔ readsNoShared principal = false := by
  cases governed : access.governs domain with
  | false => exact held_shared everyone.isShared governed
  | true =>
      obtain ⟨governor, found⟩ := governs_eq_true governed
      obtain ⟨opened, isPublic⟩ := everyone.isPublic governor found
      rw [stored.trimmed] at isPublic
      rw [heldRight, githubIn_governed stored found, everyone.isShared, opened,
        aclOf_eq_none everyone.isShared]
      exact read_le_githubInput_public principal _ isPublic

section Page

variable {side : ReaderSide}
  (found : access.readerSide access.governance domain (access.auth.aclOf domain).isSome =
    .ok (some side)) {names : List Text}
include found

/-- What a page's answer names, where not everyone reads it. -/
theorem pageReaders_accounts (answered : access.pageReaders domain = .ok (.accounts names)) :
    trim domain ≠ [] ∧
      access.governance.anonymousReads domain (access.auth.aclOf domain).isSome = false ∧
      ∃ grants, access.grantsOn domain = .ok grants ∧
        (∀ name, grants.lookup name = access.auth.grantFor domain name) ∧
        names = (access.auth.listUsers.filter fun user => !user.disabled &&
          side.readsPage (access.auth.aclOf domain) grants user).map User.name := by
  rw [pageReaders] at answered
  cases seen : access.auth.domainVisibility domain with
  | error => rw [seen] at answered; cases answered
  | ok acl =>
  have named := AuthStore.named_of_domainVisibility seen
  obtain ⟨grants, granted, grantFor⟩ := access.grantsOn_of_named named
  rw [AuthStore.domainVisibility_of_named named] at answered
  change (if _ then _ else access.readerSide _ domain (access.auth.aclOf domain).isSome >>= _) = _
    at answered
  rw [found] at answered
  change (if _ then _ else access.grantsOn domain >>= _) = _ at answered
  rw [granted] at answered
  split at answered
  · cases answered
  · next hidden => exact ⟨named, by simpa using hidden, grants, granted, grantFor,
      (PageReaders.accounts.inj (Except.ok.inj answered)).symm⟩

theorem readsPages_user {grants : AList fun _ : Text => ReflectionLevel} (named : trim domain ≠ [])
    (grantFor : ∀ name, grants.lookup name = access.auth.grantFor domain name) {user : User}
    (listed : user ∈ access.auth.listUsers) (live : user.disabled = false) :
    access.ReadsPages (.user user.name false) domain ↔
      side.readsPage (access.auth.aclOf domain) grants user = true := by
  have resolved := principal_of_listed listed live
  obtain ⟨-, -, -, -, -, folded, -⟩ := principal_account resolved
  obtain ⟨off, isOff⟩ := offListAccount_of_folded domain user.role user.reflection folded
  rw [readsPage_iff named found, grantFor, ReadsPages, reflectionRight, resolved]
  change (∃ right, (access.reflectionInputs (.account ..) domain >>= _) = _ ∧ _) ↔ _
  rw [reflectionInputs_account folded named]
  change (∃ right, (access.auth.reflectionGrantOf domain user.name >>= _) = _ ∧ _) ↔ _
  rw [AuthStore.reflectionGrantOf_of_folded named folded]
  change (∃ right, (access.offListAccount (.account ..) domain >>= _) = _ ∧ _) ↔ _
  rw [isOff]
  change (∃ right, Except.ok _ = Except.ok right ∧ _) ↔ _
  simp [User.asPrincipal, read_le_decideReflection_account]

/-- A page names the live accounts whose own question reads it. -/
theorem page_readers_read (answered : access.pageReaders domain = .ok (.accounts names))
    (name : Text) : name ∈ names ↔ ∃ user ∈ access.auth.listUsers, user.name = name ∧
      user.disabled = false ∧ access.ReadsPages (.user name false) domain := by
  obtain ⟨named, -, grants, -, grantFor, rfl⟩ := pageReaders_accounts found answered
  have reads {user : User} := @readsPages_user access domain side found grants named grantFor user
  simp only [List.mem_map, List.mem_filter, Bool.and_eq_true, Bool.not_eq_true']
  constructor
  · rintro ⟨user, ⟨listed, live, read⟩, rfl⟩
    exact ⟨user, listed, rfl, live, (reads listed live).mpr read⟩
  · rintro ⟨user, listed, rfl, live, own⟩
    exact ⟨user, ⟨listed, live, (reads listed live).mp own⟩, rfl⟩

/-- A person who confirms the readers of a page is not asked again about them. -/
theorem confirmed_readers_cover {source : Text} {sourceSide : ReaderSide} {readers : PageReaders}
    (answered : access.pageReaders domain = .ok readers) (named : trim source ≠ [])
    (sourceFound : access.readerSide access.governance source (access.auth.aclOf source).isSome =
      .ok (some sourceSide)) : access.readersCoverFor domain source readers = .ok true := by
  cases readers with
  | everyone => rfl
  | accounts names =>
  obtain ⟨pageNamed, hidden, grants, granted, -, rfl⟩ := pageReaders_accounts found answered
  rw [readersCoverFor, cover]
  split
  · rfl
  rw [AuthStore.domainVisibility_of_named pageNamed, AuthStore.domainVisibility_of_named named]
  change (if _ then _ else if _ then _ else if _ then _ else
    access.readerSide access.governance domain (access.auth.aclOf domain).isSome >>= _) = _
  rw [hidden, found, Option.isNone_some, Bool.and_false]
  change (access.readerSide access.governance source _ >>= _) = _
  rw [sourceFound]
  change (access.grantsOn domain >>= _) = _
  rw [granted]
  refine congrArg Except.ok (List.all_eq_true.mpr fun user listed => ?_)
  have asked : user.disabled = false → side.readsPage (access.auth.aclOf domain) grants user = true →
      user.name ∈ (access.auth.listUsers.filter fun user => !user.disabled &&
        side.readsPage (access.auth.aclOf domain) grants user).map User.name := fun live reads =>
    List.mem_map_of_mem (List.mem_filter.mpr ⟨listed, by simp [live, reads]⟩)
  grind

end Page

theorem page_readers_read_plans :
    sampleAccess.pageReaders "plans".toList = .ok (.accounts ["boss".toList]) ∧
      sampleAccess.ReadsPages (.user "boss".toList false) "plans".toList := by
  have answered : sampleAccess.pageReaders "plans".toList = .ok (.accounts ["boss".toList]) := rfl
  have named := @page_readers_read sampleAccess _ _ rfl _ answered "boss".toList
  obtain ⟨-, -, -, -, reads⟩ := named.mp List.mem_cons_self
  exact ⟨answered, reads⟩

theorem confirmed_readers_cover_plans :
    sampleAccess.readersCoverFor "plans".toList "notes".toList (.accounts ["boss".toList]) =
      .ok true :=
  confirmed_readers_cover rfl rfl (by decide) rfl

/-- Every bulk answer says of a domain what the single question says. -/
structure OnePolicy (access : DomainAccess) (domain : Text) : Prop where
  visibility : ∀ scope,
    (access.visibility scope).map (fun visibility => visibility.screen.admits domain) =
      (access.right scope domain).map fun right => decide (DomainRight.read ≤ right)
  openTier : ∀ agent principal, access.principal (.agent agent) = .ok principal →
    ∃ visibility, access.openTierVisibility agent = .ok visibility ∧
      (visibility.screen.admits domain = true ↔ access.ReadsEngrams
        (if access.governs domain then .agent agent else .anonymous) domain)
  writeRight : ∀ scope, (access.writeRights scope).map (fun rights => rights.writeRight domain) =
    access.writeRight scope domain
  writeListExcludes : ∀ scope,
    (access.writeRights scope).map (fun rights => rights.writeListExcludes domain) =
      access.writeListExcludes scope domain
  readers : ∀ names, access.readersOf domain = .ok (some names) → ∀ name, name ∈ names ↔
    ∃ user ∈ access.auth.listUsers, user.name = name ∧ user.disabled = false ∧
      access.ReadsEngrams (.user name false) domain
  everyone : access.readersOf domain = .ok none → ∀ scope principal,
    access.principal scope = .ok principal →
      (access.ReadsEngrams scope domain ↔ readsNoShared principal = false)
  answers : ∃ readers, access.readersOf domain = .ok readers
  listLowers : ∀ scope principal held governed,
    access.decidedRight scope domain = .ok (principal, held, governed) →
      ∃ right written, access.right scope domain = .ok right ∧
        access.writeRight scope domain = .ok written ∧
        right ≤ held ∧ (DomainRight.read ≤ right ↔ DomainRight.read ≤ held) ∧
        written ≤ writeCapped principal held governed ∧
        (DomainRight.read ≤ written ↔ DomainRight.read ≤ writeCapped principal held governed)

theorem visibility_agrees (stored : StoredName domain) (scope : Scope) :
    (access.visibility scope).map (fun visibility => visibility.screen.admits domain) =
      (access.right scope domain).map fun right => decide (DomainRight.read ≤ right) := by
  cases resolved : access.principal scope with
  | error error =>
      rw [visibility, right, resolvedRight, decidedRight, resolved]
      rfl
  | ok principal =>
      obtain ⟨visibility, seen, admits⟩ := visibility_admits resolved
      obtain ⟨right, answered, -, reads⟩ := right_of_resolved resolved stored.trim_ne
      rw [seen, answered]
      change Except.ok (visibility.screen.admits domain) = Except.ok _
      rw [Bool.eq_iff_iff.mpr ((admits domain stored).trans
        (reads.symm.trans decide_eq_true_iff.symm))]

theorem listLowers_of_resolved (resolved : access.principal scope = .ok principal)
    (named : trim domain ≠ []) :
    ∃ written, access.writeRight scope domain = .ok written ∧
      written ≤ writeCapped principal (access.heldRight principal domain)
        (access.liftsCap principal domain) ∧
      (DomainRight.read ≤ written ↔ DomainRight.read ≤ writeCapped principal
        (access.heldRight principal domain) (access.liftsCap principal domain)) := by
  refine ⟨_, writeRight_of_resolved resolved named, ?_⟩
  split
  · next above => exact ⟨above.1.le, iff_of_true le_rfl above.1.le⟩
  · exact ⟨le_rfl, Iff.rfl⟩

/-- Five entry points give one policy, whatever the accounts store holds and the
governor answers, as long as its listing of the domain is known. -/
theorem bulk_answers_agree (access : DomainAccess) (domain : Text) (trimmed : trim domain = domain)
    (named : domain ≠ [])
    (known : ∀ governor, access.governance.of domain = some governor →
      (governor.readers domain).isSome = true) :
    access.OnePolicy domain := by
  have stored : StoredName domain := ⟨trimmed, named⟩
  have listing : ∀ governor, access.governance.of domain = some governor →
      (governor.readers (trim domain)).isSome = true := by rwa [trimmed]
  refine ⟨visibility_agrees stored, ?_, ?_, ?_, ?_, ?_, ?_, ?_⟩
  · intro agent principal resolved
    obtain ⟨visibility, seen, admits⟩ := openTier_admits resolved
    refine ⟨visibility, seen, (admits domain stored).trans ?_⟩
    cases access.governs domain with
    | true => exact (readsEngrams_iff resolved stored.trim_ne).symm
    | false => exact (readsEngrams_iff rfl stored.trim_ne).symm
  · intro scope
    cases resolved : access.principal scope with
    | error error =>
        rw [writeRights, writeRight, decidedRight, resolved]
        rfl
    | ok principal => exact writeRight_listing resolved stored
  · intro scope
    cases resolved : access.principal scope with
    | error error =>
        rw [writeRights, writeListExcludes, decidedRight, resolved]
        rfl
    | ok principal => exact writeListExcludes_listing resolved stored
  · intro names found name
    rcases readersOf_cases stored.trim_ne listing with ⟨side, isSide, answered⟩ | ⟨answered, -⟩
    · rw [answered] at found
      obtain rfl := Option.some.inj (Except.ok.inj found)
      exact mem_engramReaders stored.trim_ne isSide
    · rw [answered] at found
      cases found
  · intro found scope principal resolved
    rcases readersOf_cases stored.trim_ne listing with ⟨side, -, answered⟩ | ⟨-, everyone⟩
    · rw [answered] at found
      cases found
    · exact (readsEngrams_iff resolved stored.trim_ne).trans (everyone.held stored)
  · rcases readersOf_cases stored.trim_ne listing with ⟨side, -, answered⟩ | ⟨answered, -⟩
    · exact ⟨_, answered⟩
    · exact ⟨_, answered⟩
  · intro scope principal held governed decided
    cases resolved : access.principal scope with
    | error error =>
        rw [decidedRight, resolved] at decided
        cases decided
    | ok caller =>
        rw [decidedRight_of_resolved resolved stored.trim_ne] at decided
        cases decided
        obtain ⟨right, answered, lower, reads⟩ := right_of_resolved resolved stored.trim_ne
        obtain ⟨written, alsoAnswered, lowerWrite, readsWrite⟩ :=
          listLowers_of_resolved resolved stored.trim_ne
        exact ⟨right, written, answered, alsoAnswered, lower, reads, lowerWrite, readsWrite⟩

theorem bulk_answers_agree_plans :
    sampleAccess.readersOf "plans".toList = .ok (some ["boss".toList]) ∧
      sampleAccess.ReadsEngrams (.user "boss".toList false) "plans".toList := by
  have known : ∀ governor, sampleAccess.governance.of "plans".toList = some governor →
      (governor.readers "plans".toList).isSome = true := by
    intro governor found
    obtain rfl := Option.some.inj (Option.filter_eq_some_iff.mp found).1
    rfl
  have policy := bulk_answers_agree sampleAccess "plans".toList (by decide) (by decide) known
  refine ⟨rfl, ?_⟩
  obtain ⟨-, -, -, -, reads⟩ := (policy.readers _ rfl "boss".toList).mp List.mem_cons_self
  exact reads

end DomainAccess

end Crystalline.Identity
