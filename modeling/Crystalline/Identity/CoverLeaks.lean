import Crystalline.Identity.CoverSound

/-!
# When a covered page leaks

The loop judges every account by its row.  Three callers are read otherwise: the
stand-in of an admin, clamped to an editor after the loop has counted the admin
in, the stand-in of an account that was confirmed as a reader, and whoever reads a
page of the very domain it draws from, which the loop never looks at.
-/

namespace Crystalline.Identity

open Text Keyed

namespace DomainAccess

variable {access : DomainAccess} {scope : Scope} {domain page source name : Text} {role : Role}
  {reflection : ReflectionLevel}

/-- What opens a domain's engrams to an account: its role on a shared domain,
its rows on a private one, and on a domain of GitHub's the grant there. -/
def EngramsOpen (access : DomainAccess) (name : Text) (role : Role) (domain : Text) : Prop :=
  role = .admin ∨
    match access.governance.of domain, access.auth.aclOf domain with
    | none, none => role ≠ .none
    | none, some acl => acl.owner = name ∨
        ∃ row, access.auth.memberOf domain name = some row ∧ row.level ≠ .none
    | some _, none => access.governance.closes domain = false ∧ role ≠ .none
    | some governor, some _ => access.governance.closes domain = false ∧ role ≠ .none ∧
        DomainRight.read ≤ githubRight (governor.knowledge name (trim domain))

/-- What opens a domain's Reflection alone: a level of the account, of its row
or of its grant. -/
def LevelOpens (access : DomainAccess) (name : Text) (role : Role) (reflection : ReflectionLevel)
    (grant : Option ReflectionLevel) (domain : Text) : Prop :=
  access.governance.closes domain = false ∧
    (grant.getD .asKnowledge ≠ .asKnowledge ∨
      match access.governance.of domain, access.auth.aclOf domain with
      | none, none => reflection ≠ .asKnowledge
      | none, some _ => ∃ row, access.auth.memberOf domain name = some row ∧
          row.reflection ≠ .asKnowledge
      | some _, none => role ≠ .none ∧ reflection ≠ .asKnowledge
      | some _, some _ => False)

/-- What opens a domain's Reflection to an account. -/
def PagesOpen (access : DomainAccess) (name : Text) (role : Role) (reflection : ReflectionLevel)
    (grant : Option ReflectionLevel) (domain : Text) : Prop :=
  access.EngramsOpen name role domain ∨ access.LevelOpens name role reflection grant domain

theorem closed_githubInput (governor : KnowledgeGovernor) (name : Text) (role : Role)
    (reflection : ReflectionLevel) (domain : Text) (isPrivate closed : Bool) :
    (githubInput governor (.account name role reflection) domain isPrivate closed).closed =
      closed := by
  cases closed with
  | true => rfl
  | false => cases role <;> rfl

theorem closed_githubIn :
    (access.githubIn (.account name role reflection) domain).any Governed.closed =
      access.governance.closes domain := by
  unfold githubIn Governance.input
  cases governs : access.governance.of domain with
  | none =>
      rw [Governance.closes, governs]
      rfl
  | some governor =>
      rw [Option.map_some, Option.any_some]
      exact closed_githubInput governor name role reflection _ _ _

theorem read_le_based (isPrivate : Bool) (github : DomainRight) :
    (DomainRight.read ≤
      let base : DomainRight := if isPrivate then .none else .read
      if base < github then github else base) ↔
        (isPrivate = true → DomainRight.read ≤ github) := by
  cases isPrivate <;> cases github <;> decide

theorem read_le_decideGoverned_iff (governor : KnowledgeGovernor) (isPrivate closed : Bool) :
    DomainRight.read ≤ decideGoverned (.account name role reflection) isPrivate
        (githubInput governor (.account name role reflection) domain isPrivate closed) ↔
      role = .admin ∨ closed = false ∧ role ≠ .none ∧ (isPrivate = true →
        DomainRight.read ≤ githubRight (governor.knowledge name domain)) := by
  cases closed with
  | true =>
      cases role with
      | admin => exact iff_of_true DomainRight.read_le_own (.inl rfl)
      | none => exact iff_of_false DomainRight.not_read_le_none (by simp)
      | viewer => exact iff_of_false DomainRight.not_read_le_none (by simp)
      | editor => exact iff_of_false DomainRight.not_read_le_none (by simp)
  | false =>
      have based := read_le_based isPrivate (githubRight (governor.knowledge name domain))
      cases role with
      | admin => exact iff_of_true DomainRight.read_le_own (.inl rfl)
      | none => exact iff_of_false DomainRight.not_read_le_none (by simp)
      | viewer => exact based.trans (by simp)
      | editor => exact based.trans (by simp)

theorem read_le_decide_iff :
    DomainRight.read ≤ Principal.decide (.account name role reflection)
        (access.auth.aclOf domain)
        (access.levelIn name domain (access.githubIn (.account name role reflection) domain))
        (access.githubIn (.account name role reflection) domain) ↔
      access.EngramsOpen name role domain := by
  unfold EngramsOpen
  cases governs : access.governance.of domain with
  | none =>
      have ungoverned : access.githubIn (.account name role reflection) domain = none := by
        rw [githubIn, Governance.input, governs]
        rfl
      rw [ungoverned, levelIn]
      cases isAcl : access.auth.aclOf domain with
      | none =>
          cases role with
          | none => exact iff_of_false DomainRight.not_read_le_none (by simp)
          | viewer => exact iff_of_true le_rfl (by simp)
          | editor => exact iff_of_true (by decide : DomainRight.read ≤ .write) (by simp)
          | admin => exact iff_of_true DomainRight.read_le_own (.inl rfl)
      | some acl =>
          by_cases isAdmin : role = .admin
          · subst isAdmin
            exact iff_of_true (by simp [Principal.decide, DomainRight.read_le_own]) (.inl rfl)
          by_cases owns : acl.owner = name
          · refine iff_of_true ?_ (.inr (.inl owns))
            simp [Principal.decide, isAdmin, owns, DomainRight.read_le_own]
          simp only [Principal.decide, isAdmin, owns, if_false, false_or, Option.isSome_some,
            Option.isNone_none, Bool.and_self, if_true]
          cases access.auth.memberOf domain name with
          | none => exact iff_of_false (by decide) (by simp)
          | some row =>
              rcases row with ⟨level, own⟩
              cases level <;> simp <;> decide
  | some governor =>
      rw [githubIn, Governance.input, governs]
      refine (read_le_decideGoverned_iff governor _ _).trans ?_
      cases access.auth.aclOf domain <;> simp

/-- The level that counts beside the engrams is one of the account's own. -/
theorem level_ne_iff (grant : Option ReflectionLevel) :
    (access.githubIn (.account name role reflection) domain).any Governed.closed = false ∧
        max (explicitLevel role reflection (access.auth.aclOf domain)
          (access.levelIn name domain (access.githubIn (.account name role reflection) domain))
          (access.reflectionIn name domain
            (access.githubIn (.account name role reflection) domain))
          (access.githubIn (.account name role reflection) domain))
          (grant.getD .asKnowledge) ≠ .asKnowledge ↔
      access.LevelOpens name role reflection grant domain := by
  have raised : ∀ left right : ReflectionLevel, max left right ≠ .asKnowledge ↔
      right ≠ .asKnowledge ∨ left ≠ .asKnowledge := by
    intro left right
    cases left <;> cases right <;> decide
  rw [closed_githubIn, raised]
  refine and_congr_right fun opened => or_congr_right ?_
  cases governs : access.governance.of domain with
  | none =>
      have ungoverned : access.githubIn (.account name role reflection) domain = none := by
        rw [githubIn, Governance.input, governs]
        rfl
      rw [ungoverned, levelIn, reflectionIn]
      cases access.auth.aclOf domain with
      | none => exact Iff.rfl
      | some acl =>
          cases access.auth.memberOf domain name with
          | none => simp [explicitLevel]
          | some row => simp [explicitLevel]
  | some governor =>
      rw [githubIn, Governance.input, governs]
      cases role <;> cases access.auth.aclOf domain <;> simp [explicitLevel]

theorem readsEngrams_account
    (resolved : access.principal scope = .ok (.account name role reflection))
    (named : trim domain ≠ []) :
    access.ReadsEngrams scope domain ↔ access.EngramsOpen name role domain := by
  obtain ⟨right, answered, reads⟩ := right_account resolved named
  rw [← read_le_decide_iff, ← reads]
  constructor
  · rintro ⟨other, found, reads⟩
    obtain rfl := Except.ok.inj (answered.symm.trans found)
    exact reads
  · exact fun reads => ⟨right, answered, reads⟩

theorem readsPages_account
    (resolved : access.principal scope = .ok (.account name role reflection))
    (named : trim domain ≠ []) :
    access.ReadsPages scope domain ↔
      access.PagesOpen name role reflection (access.grantHeld scope name domain) domain := by
  obtain ⟨offList, answered⟩ := reflectionRight_account resolved named
  have reads := @read_le_decideReflection_account reflection name role
    (access.auth.aclOf domain)
    (access.levelIn name domain (access.githubIn (.account name role reflection) domain))
    (access.reflectionIn name domain (access.githubIn (.account name role reflection) domain))
    (access.grantHeld scope name domain)
    (access.githubIn (.account name role reflection) domain) offList
  rw [read_le_decide_iff, level_ne_iff] at reads
  rw [PagesOpen, ← reads]
  constructor
  · rintro ⟨right, found, reads⟩
    obtain rfl := Except.ok.inj (answered.symm.trans found)
    exact reads
  · exact fun reads => ⟨_, answered, reads⟩

theorem named_of_readsPages {principal : Principal} (resolved : access.principal scope = .ok principal)
    (known : principal ≠ .unrestricted) (reads : access.ReadsPages scope page) :
    trim page ≠ [] := by
  obtain ⟨right, answered, -⟩ := reads
  rw [reflectionRight, resolved] at answered
  cases seen : access.auth.domainVisibility page with
  | ok acl => exact AuthStore.named_of_domainVisibility seen
  | error error =>
      cases principal with
      | unrestricted => exact absurd rfl known
      | anonymous =>
          change (access.reflectionInputs .anonymous page >>= _) = _ at answered
          rw [reflectionInputs, seen] at answered
          cases answered
      | account name role reflection =>
          change (access.reflectionInputs (.account name role reflection) page >>= _) = _
            at answered
          rw [reflectionInputs, seen] at answered
          cases answered

/-- The scope is one of the named accounts itself. -/
def IsNamed (access : DomainAccess) (scope : Scope) (names : List Text) : Prop :=
  (∃ account admin, scope = .user account admin) ∧ access.ActsAs scope names

/-- The open tier stands in for one of the named accounts. -/
def StandsInForNamed (access : DomainAccess) (scope : Scope) (names : List Text) : Prop :=
  (∃ account, scope = .agent account) ∧ access.ActsAs scope names

theorem acts_as_named {names : List Text} (acts : access.ActsAs scope names) :
    access.IsNamed scope names ∨ access.StandsInForNamed scope names := by
  have ⟨name, role, reflection, resolved, _⟩ := acts
  cases scope with
  | unrestricted => cases resolved
  | anonymous => cases resolved
  | user account admin => exact .inl ⟨⟨account, admin, rfl⟩, acts⟩
  | agent account => exact .inr ⟨⟨account, rfl⟩, acts⟩

/-- What the answer of `cover` leaves open: a page always covers its own
domain, an admin is counted in before its stand-in is clamped, and a named account
is let by together with its stand-in.  There the rows may open no page of which
they do not open the source. -/
def SealedFor (access : DomainAccess) (scope : Scope) (page source : Text)
    (names : List Text) : Prop :=
  trim page ≠ [] →
    trim page = trim source ∨ access.StandsInForAdmin scope ∨
        access.StandsInForNamed scope names →
      ∀ name role reflection, access.principal scope = .ok (.account name role reflection) →
        access.PagesOpen name role reflection (access.grantHeld scope name page) page →
          access.EngramsOpen name role source

theorem leaks_nothing_account
    (resolved : access.principal scope = .ok (.account name role reflection))
    (named : trim page ≠ [] → trim source ≠ []) :
    (access.ReadsPages scope page → access.ReadsEngrams scope source) ↔
      (trim page ≠ [] →
        access.PagesOpen name role reflection (access.grantHeld scope name page) page →
          access.EngramsOpen name role source) := by
  constructor
  · intro leaksNothing pageNamed opened
    have reads := leaksNothing ((readsPages_account resolved pageNamed).mpr opened)
    exact (readsEngrams_account resolved (named pageNamed)).mp reads
  · intro isSealed reads
    have pageNamed := named_of_readsPages resolved nofun reads
    have opened := isSealed pageNamed ((readsPages_account resolved pageNamed).mp reads)
    exact (readsEngrams_account resolved (named pageNamed)).mpr opened

theorem leaks_nothing_unrestricted (resolved : access.principal scope = .ok .unrestricted) :
    access.ReadsEngrams scope domain := by
  refine ⟨.own, ?_, by decide⟩
  rw [DomainAccess.right, resolvedRight, decidedRight, resolved]
  rfl

/-- Nobody in particular reads the pages of a domain and its engrams alike. -/
theorem leaks_nothing_anonymous (resolved : access.principal scope = .ok .anonymous)
    (same : trim page = trim source) (reads : access.ReadsPages scope page) :
    access.ReadsEngrams scope source := by
  have named := named_of_readsPages resolved nofun reads
  obtain ⟨right, answered, reads⟩ := reads
  obtain ⟨pageRight, asked, readsPage⟩ := reflectionRight_anonymous resolved named
  obtain rfl := Except.ok.inj (answered.symm.trans asked)
  obtain ⟨sourceRight, found, readsSource⟩ := right_anonymous resolved (same ▸ named)
  refine ⟨sourceRight, found, readsSource.mpr ?_⟩
  have sameRead := readsPage.mp reads
  unfold Governance.anonymousReads Governance.closes Governance.of AuthStore.aclOf at sameRead ⊢
  rw [← same]
  exact sameRead

theorem leaks_nothing_iff {confirmed : Option (List Text)}
    (covers : access.cover page source confirmed = .ok true)
    (unnamed : ¬access.IsNamed scope (confirmed.getD [])) :
    (access.ReadsPages scope page → access.ReadsEngrams scope source) ↔
      access.SealedFor scope page source (confirmed.getD []) := by
  have named : trim page ≠ [] → trim source ≠ [] := by
    intro pageNamed
    by_cases same : trim page = trim source
    · exact same ▸ pageNamed
    · exact (covered_of_cover same covers).sourceNamed
  constructor
  · intro leaksNothing pageNamed _ name role reflection resolved
    exact (leaks_nothing_account resolved named).mp leaksNothing pageNamed
  · intro isSealed
    by_cases special : trim page = trim source ∨ access.StandsInForAdmin scope ∨
        access.StandsInForNamed scope (confirmed.getD [])
    · cases resolved : access.principal scope with
      | error error =>
          rintro ⟨right, answered, -⟩
          rw [reflectionRight, resolved] at answered
          cases answered
      | ok principal =>
      cases principal with
      | unrestricted => exact fun _ => leaks_nothing_unrestricted resolved
      | account name role reflection =>
          exact (leaks_nothing_account resolved named).mpr
            fun pageNamed => isSealed pageNamed special name role reflection resolved
      | anonymous =>
          rcases special with same | ⟨account, user, rfl, found, live, -⟩ | ⟨-, acts⟩
          · exact leaks_nothing_anonymous resolved same
          · rw [principal_agent, found] at resolved
            have isAnonymous := Except.ok.inj resolved
            rw [liveAccount, live, if_neg Bool.false_ne_true] at isAnonymous
            cases isAnonymous
          · obtain ⟨name, role, reflection, isAccount, -⟩ := acts
            cases Except.ok.inj (resolved.symm.trans isAccount)
    · rw [not_or, not_or] at special
      obtain ⟨apart, noAdmin, noNamed⟩ := special
      refine (covered_of_cover apart covers).readsEngrams scope noAdmin ?_
      rintro names rfl acts
      rcases acts_as_named acts with isNamed | standsIn
      · exact unnamed isNamed
      · exact noNamed standsIn

/-- A page that its readers cover leaks nothing, whoever asks, exactly when
the rows seal what the answer leaves open; and a confirmation answers for the
accounts it names alone. -/
theorem readers_cover_leaks_nothing_iff (access : DomainAccess) (page source : Text)
    (scope : Scope) :
    (access.readersCover page source = .ok true →
      ((access.ReadsPages scope page → access.ReadsEngrams scope source) ↔
        access.SealedFor scope page source [])) ∧
    ∀ names, access.readersCoverFor page source (.accounts names) = .ok true →
      ¬access.IsNamed scope names →
        ((access.ReadsPages scope page → access.ReadsEngrams scope source) ↔
          access.SealedFor scope page source names) := by
  constructor
  · intro covers
    have unnamed : ¬access.IsNamed scope [] := by
      rintro ⟨-, name, role, reflection, -, member⟩
      cases member
    exact leaks_nothing_iff covers unnamed
  · intro names covers unnamed
    exact leaks_nothing_iff covers unnamed

section Samples

/-- A Reflection collaborator, and the admin the open tier stands in for. -/
def sampleAuth : AuthStore where
  toLowercase := List.map Char.toLower
  users := (AList.singleton "boss".toList ⟨.admin, false, .asKnowledge⟩).insert "ada".toList
    ⟨.none, false, .asKnowledge⟩
  domainAcl := (AList.singleton "plans".toList "boss".toList).insert "notes".toList
    "boss".toList
  domainMember := ∅
  reflectionGrant := AList.singleton ("notes".toList, "ada".toList) .reader
  writeDomain := []
  folded := by
    have named : ∀ name ∈ ["ada".toList, "boss".toList],
        normalizeAccountName (List.map Char.toLower) name = .ok name := by decide
    exact fun name member => named name member

/-- What GitHub grants: the admin reads one repository of the two. -/
def sampleKnowledge (account domain : Text) : GithubKnowledge :=
  if account = "boss".toList ∧ domain = "plans".toList then .level .viewer else .unlinked

def sampleGovernor : KnowledgeGovernor where
  governedDomains := ["plans".toList, "notes".toList]
  closedDomains := []
  knowledge := sampleKnowledge
  repositoryPublic := fun _ => false
  readers := fun domain => some (if domain = "plans".toList then ["boss".toList] else [])
  readersAgree := by
    intro domain names listed account
    obtain rfl := Option.some.inj listed
    unfold sampleKnowledge
    by_cases plans : domain = "plans".toList
    · rw [if_pos plans, List.mem_singleton]
      by_cases boss : account = "boss".toList
      · rw [if_pos ⟨boss, plans⟩]
        exact iff_of_true boss (by decide)
      · rw [if_neg (fun both => boss both.1)]
        exact iff_of_false boss (by decide)
    · rw [if_neg plans, if_neg (fun both => plans both.2)]
      exact iff_of_false List.not_mem_nil (by decide)

def sampleAccess : DomainAccess := ⟨sampleAuth, some sampleGovernor⟩

/-- Two private domains of one owner: a member of both, and one who reads the
pages of one alone. -/
def teamAuth : AuthStore where
  toLowercase := List.map Char.toLower
  users := ((AList.singleton "boss".toList ⟨.admin, false, .asKnowledge⟩).insert "ada".toList
    ⟨.viewer, false, .asKnowledge⟩).insert "eve".toList ⟨.none, false, .asKnowledge⟩
  domainAcl := (AList.singleton "plans".toList "boss".toList).insert "notes".toList
    "boss".toList
  domainMember := ((AList.singleton ("plans".toList, "ada".toList)
    ⟨.viewer, .asKnowledge⟩).insert ("notes".toList, "ada".toList)
      ⟨.editor, .asKnowledge⟩).insert ("plans".toList, "eve".toList) ⟨.none, .reader⟩
  reflectionGrant := ∅
  writeDomain := []
  folded := by
    have named : ∀ name ∈ ["eve".toList, "ada".toList, "boss".toList],
        normalizeAccountName (List.map Char.toLower) name = .ok name := by decide
    exact fun name member => named name member

def teamAccess : DomainAccess := ⟨teamAuth, none⟩

/-- A page covered by its readers that the stand-in of an admin reads, and not
its source.  A page covers its own domain whoever reads it, and a confirmation for
an account lets the open tier in its place by. -/
theorem covered_pages_leak :
    (trim "plans".toList = "plans".toList ∧ trim "notes".toList = "notes".toList ∧
      sampleAccess.readersCover "plans".toList "notes".toList = .ok true ∧
        sampleAccess.ReadsPages (.agent "boss".toList) "plans".toList ∧
          ¬sampleAccess.ReadsEngrams (.agent "boss".toList) "notes".toList) ∧
    (sampleAccess.readersCover "notes".toList "notes".toList = .ok true ∧
      sampleAccess.ReadsPages (.user "ada".toList false) "notes".toList ∧
        ¬sampleAccess.ReadsEngrams (.user "ada".toList false) "notes".toList) ∧
    teamAccess.readersCoverFor "plans".toList "notes".toList (.accounts ["eve".toList]) =
        .ok true ∧
      teamAccess.ReadsPages (.agent "eve".toList) "plans".toList ∧
        ¬teamAccess.ReadsEngrams (.agent "eve".toList) "notes".toList := by
  have unread {access : DomainAccess} {scope : Scope} {domain : Text}
      (nothing : access.right scope domain = .ok .none) : ¬access.ReadsEngrams scope domain := by
    rintro ⟨right, answered, reads⟩
    obtain rfl := Except.ok.inj (nothing.symm.trans answered)
    exact DomainRight.not_read_le_none reads
  exact ⟨⟨by decide, by decide, rfl, ⟨.read, rfl, le_rfl⟩, unread rfl⟩,
    ⟨rfl, ⟨.read, rfl, le_rfl⟩, unread rfl⟩, rfl, ⟨.read, rfl, le_rfl⟩, unread rfl⟩

theorem readers_cover_leaks_nothing_iff_team :
    teamAccess.ReadsEngrams (.agent "boss".toList) "plans".toList ∧
      teamAccess.ReadsEngrams (.agent "ada".toList) "notes".toList := by
  constructor
  · -- the owner's stand-in, on the page that nobody but the members reads
    refine ((readers_cover_leaks_nothing_iff teamAccess "notes".toList "plans".toList
      (.agent "boss".toList)).1 rfl).mpr ?_ ⟨.curate, rfl, by decide⟩
    rintro - - name role reflection resolved -
    have standIn : teamAccess.principal (.agent "boss".toList) =
        .ok (.account "boss".toList .editor .asKnowledge) := rfl
    cases Except.ok.inj (standIn.symm.trans resolved)
    exact .inr (.inl rfl)
  · -- the other reader of the page was named, and the member was not
    refine ((readers_cover_leaks_nothing_iff teamAccess "plans".toList "notes".toList
      (.agent "ada".toList)).2 ["eve".toList] rfl ?_).mpr ?_ ⟨.read, rfl, le_rfl⟩
    · rintro ⟨⟨account, admin, isUser⟩, -⟩
      cases isUser
    · rintro - (same | ⟨account, user, isAgent, found, -, isAdmin⟩ | ⟨-, acts⟩)
      · exact absurd same (by decide)
      · cases isAgent
        have held : teamAccess.auth.user "ada".toList =
            .ok (some ⟨"ada".toList, .viewer, false, .asKnowledge⟩) := rfl
        cases Except.ok.inj (held.symm.trans found)
        cases isAdmin
      · obtain ⟨name, role, reflection, resolved, named⟩ := acts
        have member : teamAccess.principal (.agent "ada".toList) =
            .ok (.account "ada".toList .viewer .asKnowledge) := rfl
        cases Except.ok.inj (member.symm.trans resolved)
        exact absurd named (by decide)

end Samples

end DomainAccess

end Crystalline.Identity
