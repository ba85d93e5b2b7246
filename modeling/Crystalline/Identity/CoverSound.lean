import Crystalline.Identity.Cover

/-!
# A covered page leaks nothing

The loop decides each account from rows read once for the whole domain, the
question of one caller from rows read for that caller.  Both are brought to one
form, the row of the account beside what GitHub answers, and compared there.
-/

namespace Crystalline.Identity

open Text Keyed

namespace DomainAccess

variable {access : DomainAccess} {scope : Scope} {domain : Text} {name : Text} {role : Role}
  {reflection : ReflectionLevel}

/-- The membership level that counts for an account. -/
def levelIn (access : DomainAccess) (name domain : Text) (github : Option Governed) :
    Option MemberLevel :=
  if (access.auth.aclOf domain).isSome && github.isNone then
    (access.auth.memberOf domain name).map MemberRow.level
  else none

/-- The membership Reflection level that counts for an account. -/
def reflectionIn (access : DomainAccess) (name domain : Text) (github : Option Governed) :
    ReflectionLevel :=
  if (access.auth.aclOf domain).isSome && github.isNone then
    ((access.auth.memberOf domain name).map MemberRow.reflection).getD .asKnowledge
  else .asKnowledge

/-- What GitHub says of a caller on a domain. -/
def githubIn (access : DomainAccess) (principal : Principal) (domain : Text) :
    Option Governed :=
  access.governance.input principal domain (access.auth.aclOf domain).isSome

theorem levelOf_of_folded
    (folded : normalizeAccountName access.auth.toLowercase name = .ok name) :
    access.levelOf name domain = .ok ((access.auth.memberOf domain name).map MemberRow.level) := by
  obtain ⟨memberships, found, isRow⟩ :=
    access.auth.membershipsOf_find domain folded
  rw [levelOf, found]
  exact congrArg Except.ok isRow

/-- The principal of an account the store may hold. -/
def liveAccount (clamp : User → Role) : Option User → Principal
  | none => .anonymous
  | some user =>
      if user.disabled then .anonymous
      else .account user.name (clamp user) user.reflection

/-- The role an agent works with. -/
def agentRole : Role → Role
  | .admin => .editor
  | role => role

theorem principal_user (account : Text) (admin : Bool) :
    access.principal (.user account admin) = (access.auth.user account).map
      (liveAccount fun user => if admin then .admin else user.role) := by
  change (access.auth.user account >>= _) = _
  generalize access.auth.user account = found
  cases found with
  | error error => rfl
  | ok held =>
      cases held with
      | none => rfl
      | some user =>
          change (if user.disabled = true then _ else _) =
            Except.ok (if user.disabled = true then _ else _)
          cases user.disabled <;> rfl

theorem principal_agent (account : Text) :
    access.principal (.agent account) =
      (access.auth.user account).map (liveAccount fun user => agentRole user.role) := by
  change (access.auth.user account >>= _) = _
  generalize access.auth.user account = found
  cases found with
  | error error => rfl
  | ok held =>
      cases held with
      | none => rfl
      | some user =>
          change (if user.disabled = true then _ else _) =
            Except.ok (if user.disabled = true then _
              else Principal.account _ (agentRole user.role) _)
          cases user.disabled with
          | true => rfl
          | false => cases user.role <;> rfl

/-- An account that answers is one of the store's, and live. -/
theorem liveAccount_of_found {account : Text} {clamp : User → Role}
    (answers : (access.auth.user account).map (liveAccount clamp) =
      .ok (.account name role reflection)) :
    ∃ user ∈ access.auth.listUsers, user.disabled = false ∧ user.name = name ∧
      user.reflection = reflection ∧
      normalizeAccountName access.auth.toLowercase name = .ok name ∧
      access.auth.user account = .ok (some user) ∧ role = clamp user := by
  cases found : access.auth.user account with
  | error error =>
      rw [found] at answers
      cases answers
  | ok held =>
      rw [found] at answers
      have isAccount := Except.ok.inj answers
      cases held with
      | none => cases isAccount
      | some user =>
          cases live : user.disabled with
          | true =>
              rw [liveAccount, live, if_pos rfl] at isAccount
              cases isAccount
          | false =>
              rw [liveAccount, live, if_neg Bool.false_ne_true] at isAccount
              injection isAccount with sameName sameRole sameReflection
              obtain ⟨listed, folded⟩ := AuthStore.user_eq_some found
              refine ⟨user, listed, live, sameName, sameReflection, ?_, rfl, sameRole.symm⟩
              rw [← sameName]
              exact folded

/-- An account that answers for a scope is one of the store's, live, with the
role of its row unless the scope says admin or the open tier clamps it. -/
theorem principal_account
    (resolved : access.principal scope = .ok (.account name role reflection)) :
    ∃ user ∈ access.auth.listUsers, user.disabled = false ∧ user.name = name ∧
      user.reflection = reflection ∧
      normalizeAccountName access.auth.toLowercase name = .ok name ∧
      (role = user.role ∨ role = .admin ∨
        ∃ account, scope = .agent account ∧ access.auth.user account = .ok (some user) ∧
          user.role = .admin) := by
  cases scope with
  | unrestricted => cases Except.ok.inj resolved
  | anonymous => cases Except.ok.inj resolved
  | user account admin =>
      rw [principal_user] at resolved
      obtain ⟨user, listed, live, named, leveled, folded, -, isRole⟩ :=
        liveAccount_of_found resolved
      refine ⟨user, listed, live, named, leveled, folded, ?_⟩
      cases admin with
      | true => exact .inr (.inl isRole)
      | false => exact .inl isRole
  | agent account =>
      rw [principal_agent] at resolved
      obtain ⟨user, listed, live, named, leveled, folded, held, isRole⟩ :=
        liveAccount_of_found resolved
      refine ⟨user, listed, live, named, leveled, folded, ?_⟩
      cases isAdmin : user.role with
      | admin => exact .inr (.inr ⟨account, rfl, held, rfl⟩)
      | none =>
          rw [isAdmin] at isRole
          exact .inl isRole
      | viewer =>
          rw [isAdmin] at isRole
          exact .inl isRole
      | editor =>
          rw [isAdmin] at isRole
          exact .inl isRole

theorem offListAccount_of_folded (domain : Text) (role : Role) (reflection : ReflectionLevel)
    (folded : normalizeAccountName access.auth.toLowercase name = .ok name) :
    ∃ off, access.offListAccount (.account name role reflection) domain = .ok off := by
  obtain ⟨patterns, listed⟩ := access.auth.writeList_of_folded folded
  rw [offListAccount, listed]
  cases patterns with
  | none => exact ⟨_, rfl⟩
  | some patterns => exact ⟨_, rfl⟩

/-- The membership level that counts for a caller. -/
def levelFor (access : DomainAccess) (principal : Principal) (domain : Text) :
    Option MemberLevel :=
  match principal with
  | .account name _ _ => access.levelIn name domain (access.githubIn principal domain)
  | _ => none

/-- What a caller may do on a domain before its write list and its cap. -/
def heldRight (access : DomainAccess) (principal : Principal) (domain : Text) : DomainRight :=
  principal.decide (access.auth.aclOf domain) (access.levelFor principal domain)
    (access.githubIn principal domain)

theorem decidedRight_account
    (resolved : access.principal scope = .ok (.account name role reflection))
    (named : trim domain ≠ []) :
    access.decidedRight scope domain =
      .ok (.account name role reflection, access.heldRight (.account name role reflection) domain,
        (access.githubIn (.account name role reflection) domain).isSome) := by
  obtain ⟨-, -, -, -, -, folded, -⟩ := principal_account resolved
  rw [decidedRight, resolved]
  change (access.auth.domainVisibility domain >>= _) = _
  rw [AuthStore.domainVisibility_of_named named]
  have level : access.rowLevel (access.auth.aclOf domain) (.account name role reflection)
      (access.githubIn (.account name role reflection) domain) domain =
        .ok (access.levelIn name domain
          (access.githubIn (.account name role reflection) domain)) := by
    unfold levelIn
    cases access.auth.aclOf domain with
    | none => rfl
    | some acl =>
        cases access.githubIn (.account name role reflection) domain with
        | some github => rfl
        | none => exact levelOf_of_folded folded
  change (access.rowLevel (access.auth.aclOf domain) (.account name role reflection)
    (access.githubIn (.account name role reflection) domain) domain >>= _) = _
  rw [level]
  rfl

theorem decidedRight_anonymous (resolved : access.principal scope = .ok .anonymous)
    (named : trim domain ≠ []) :
    access.decidedRight scope domain =
      .ok (.anonymous, access.heldRight .anonymous domain,
        (access.githubIn .anonymous domain).isSome) := by
  rw [decidedRight, resolved]
  change (access.auth.domainVisibility domain >>= _) = _
  rw [AuthStore.domainVisibility_of_named named]
  change (access.rowLevel (access.auth.aclOf domain) .anonymous
    (access.githubIn .anonymous domain) domain >>= _) = _
  have noRow : access.rowLevel (access.auth.aclOf domain) .anonymous
      (access.githubIn .anonymous domain) domain = .ok none := by
    cases access.auth.aclOf domain with
    | none => rfl
    | some acl =>
        cases access.githubIn .anonymous domain with
        | none => rfl
        | some github => rfl
  rw [noRow]
  rfl

/-- What a write list leaves of a right is no more, and still reads whatever
read before. -/
theorem right_of_decided {principal : Principal} {held : DomainRight} {governed : Bool}
    {off? : Option Text} (decided : access.decidedRight scope domain = .ok (principal, held, governed))
    (off : access.offListAccount principal domain = .ok off?) :
    ∃ right, access.right scope domain = .ok right ∧ right ≤ held ∧
      (DomainRight.read ≤ right ↔ DomainRight.read ≤ held) := by
  rw [right, resolvedRight, decided]
  change ∃ right, ((if DomainRight.read < held then _ else _) >>= _) = _ ∧ _
  split
  · next above =>
    rw [off]
    cases off? with
    | none => exact ⟨held, rfl, le_rfl, Iff.rfl⟩
    | some account => exact ⟨.read, rfl, above.le, iff_of_true le_rfl above.le⟩
  · exact ⟨held, rfl, le_rfl, Iff.rfl⟩

theorem right_account
    (resolved : access.principal scope = .ok (.account name role reflection))
    (named : trim domain ≠ []) :
    ∃ right, access.right scope domain = .ok right ∧
      (DomainRight.read ≤ right ↔
        DomainRight.read ≤ Principal.decide (.account name role reflection)
          (access.auth.aclOf domain)
          (access.levelIn name domain
            (access.githubIn (.account name role reflection) domain))
          (access.githubIn (.account name role reflection) domain)) := by
  obtain ⟨-, -, -, -, -, folded, -⟩ := principal_account resolved
  obtain ⟨off?, off⟩ := offListAccount_of_folded domain role reflection folded
  obtain ⟨right, answered, -, reads⟩ := right_of_decided (decidedRight_account resolved named) off
  exact ⟨right, answered, reads⟩

theorem reflectionInputs_account
    (folded : normalizeAccountName access.auth.toLowercase name = .ok name)
    (named : trim domain ≠ []) :
    access.reflectionInputs (.account name role reflection) domain =
      .ok (access.auth.aclOf domain,
        access.levelIn name domain (access.githubIn (.account name role reflection) domain),
        access.reflectionIn name domain
          (access.githubIn (.account name role reflection) domain),
        access.githubIn (.account name role reflection) domain) := by
  rw [reflectionInputs, AuthStore.domainVisibility_of_named named]
  dsimp only [bind, Except.bind]
  unfold levelIn reflectionIn githubIn
  cases access.governance.input (.account name role reflection) domain
      (access.auth.aclOf domain).isSome with
  | some github => rw [Option.isNone_some, Bool.and_false]; rfl
  | none =>
      cases access.auth.aclOf domain with
      | none => rfl
      | some acl =>
          change (access.levelOf name domain >>= _) = _
          rw [levelOf_of_folded folded]
          change (access.auth.memberReflection domain name >>= _) = _
          rw [AuthStore.memberReflection_of_folded named folded]
          rfl

/-- The grant a scope carries: the open tier carries none. -/
def grantHeld (access : DomainAccess) (scope : Scope) (name domain : Text) :
    Option ReflectionLevel :=
  match scope with
  | .user _ _ => access.auth.grantFor domain name
  | _ => none

theorem grantHeld_eq (access : DomainAccess) (scope : Scope) (name domain : Text) :
    access.grantHeld scope name domain = none ∨
      access.grantHeld scope name domain = access.auth.grantFor domain name := by
  cases scope with
  | user account admin => exact .inr rfl
  | unrestricted => exact .inl rfl
  | anonymous => exact .inl rfl
  | agent account => exact .inl rfl

/-- The Reflection right of an account, by the rows and the grant it carries. -/
theorem reflectionRight_account
    (resolved : access.principal scope = .ok (.account name role reflection))
    (named : trim domain ≠ []) :
    ∃ offList, access.reflectionRight scope domain =
        .ok (Principal.decideReflection (.account name role reflection)
          (access.auth.aclOf domain)
          (access.levelIn name domain
            (access.githubIn (.account name role reflection) domain))
          (access.reflectionIn name domain
            (access.githubIn (.account name role reflection) domain))
          (access.grantHeld scope name domain)
          (access.githubIn (.account name role reflection) domain) offList) := by
  obtain ⟨-, -, -, -, -, folded, -⟩ := principal_account resolved
  obtain ⟨off?, off⟩ := offListAccount_of_folded domain role reflection folded
  have grants : access.grantOf scope (.account name role reflection) domain =
      .ok (access.grantHeld scope name domain) := by
    cases scope with
    | unrestricted => rfl
    | anonymous => rfl
    | agent account => rfl
    | user account admin => exact AuthStore.reflectionGrantOf_of_folded named folded
  refine ⟨off?.isSome, ?_⟩
  rw [reflectionRight, resolved]
  change (access.reflectionInputs (.account name role reflection) domain >>= _) = _
  rw [reflectionInputs_account folded named]
  change (access.grantOf scope (.account name role reflection) domain >>= _) = _
  rw [grants]
  change (access.offListAccount (.account name role reflection) domain >>= _) = _
  rw [off]
  rfl

/-- Two answers of GitHub that let an account read alike. -/
structure ReadsAlike (principal : Principal) (acl : Option DomainAcl)
    (left right : Option Governed) : Prop where
  governs : left.isSome = right.isSome
  closes : left.any Governed.closed = right.any Governed.closed
  reads : ∀ level, DomainRight.read ≤ principal.decide acl level left ↔
    DomainRight.read ≤ principal.decide acl level right

theorem ReadsAlike.refl (principal : Principal) (acl : Option DomainAcl)
    (github : Option Governed) : ReadsAlike principal acl github github :=
  ⟨rfl, rfl, fun _ => Iff.rfl⟩

variable {acl : Option DomainAcl} {page source : Text}

theorem readsAlike_of_grants {left right : Governed} (leftOpen : left.closed = false)
    (rightOpen : right.closed = false)
    (grants : role = .viewer ∨ role = .editor → acl.isSome = true →
      (DomainRight.read ≤ githubRight left.knowledge ↔
        DomainRight.read ≤ githubRight right.knowledge)) :
    ReadsAlike (.account name role reflection) acl (some left) (some right) :=
  ⟨rfl, leftOpen.trans rightOpen.symm, fun _ =>
    read_le_decideGoverned_congr (leftOpen.trans rightOpen.symm)
      fun role isPrivate _ => grants role isPrivate⟩

/-- The governor lists an account as a reader when its grant reads. -/
theorem readsAlike_listed {governor : KnowledgeGovernor} {names : List Text}
    (listed : governor.readers (trim domain) = some names) (name : Text) (role : Role)
    (reflection : ReflectionLevel) :
    ReadsAlike (.account name role reflection) acl
      (some ⟨if names.elem name = true then .level .viewer else .unlinked, false, false⟩)
      (some (githubInput governor (.account name role reflection) (trim domain) true false)) := by
  have opened : (githubInput governor (.account name role reflection) (trim domain)
      true false).closed = false := by
    cases role <;> rfl
  refine readsAlike_of_grants rfl opened ?_
  intro ordinary _
  have agree := governor.readersAgree _ _ listed name
  have asked : (githubInput governor (.account name role reflection) (trim domain)
      true false).knowledge = governor.knowledge name (trim domain) := by
    rcases ordinary with rfl | rfl <;> rfl
  rw [asked, ← agree]
  by_cases member : name ∈ names
  · rw [if_pos (List.elem_eq_true_of_mem member)]
    exact iff_of_true (by decide) member
  · rw [if_neg (mt List.mem_of_elem_eq_true member)]
    exact iff_of_false (by decide) member

variable {side : ReaderSide} {confirmed : Option (List Text)}

section

variable (named : trim domain ≠ [])
  (found : access.readerSide access.governance domain (access.auth.aclOf domain).isSome =
    .ok (some side))
include named found

/-- Crystalline's own rows are the same ones on either side. -/
theorem readerSide_ungoverned (name : Text) (governs : access.governance.of domain = none) :
    side.inputs name = (access.levelIn name domain none, access.reflectionIn name domain none,
      none) := by
  unfold readerSide at found
  rw [governs] at found
  unfold levelIn reflectionIn
  cases isAcl : access.auth.aclOf domain with
  | none =>
      rw [isAcl] at found
      obtain rfl := Option.some.inj (Except.ok.inj found)
      rfl
  | some acl =>
      rw [isAcl] at found
      obtain ⟨rows, isRows, rowOf⟩ := access.memberRows_of_named named
      change (access.memberRows domain >>= _) = _ at found
      rw [isRows] at found
      obtain rfl := Option.some.inj (Except.ok.inj found)
      rw [ReaderSide.inputs, rowOf]
      cases access.auth.memberOf domain name with
      | none => rfl
      | some row => rfl

/-- What the loop reads for an account is what the account's own question
reads, but for the level of a GitHub grant. -/
theorem readerSide_inputs (name : Text) (role : Role) (reflection : ReflectionLevel) :
    ∃ github, side.inputs name =
        (access.levelIn name domain (access.githubIn (.account name role reflection) domain),
          access.reflectionIn name domain
            (access.githubIn (.account name role reflection) domain), github) ∧
      ReadsAlike (.account name role reflection) (access.auth.aclOf domain) github
        (access.githubIn (.account name role reflection) domain) := by
  cases governs : access.governance.of domain with
  | none =>
      have ungoverned : access.githubIn (.account name role reflection) domain = none := by
        rw [githubIn, Governance.input, governs]
        rfl
      rw [ungoverned]
      exact ⟨none, readerSide_ungoverned named found name governs, .refl _ _ _⟩
  | some governor =>
      have governed : access.githubIn (.account name role reflection) domain =
          some (githubInput governor (.account name role reflection) (trim domain)
            (access.auth.aclOf domain).isSome (access.governance.closes domain)) := by
        rw [githubIn, Governance.input, governs]
        rfl
      have noRow : access.levelIn name domain
            (access.githubIn (.account name role reflection) domain) = none ∧
          access.reflectionIn name domain
            (access.githubIn (.account name role reflection) domain) = .asKnowledge := by
        rw [governed, levelIn, reflectionIn, Option.isNone_some, Bool.and_false]
        exact ⟨rfl, rfl⟩
      unfold readerSide at found
      rw [governs] at found
      rw [noRow.1, noRow.2, governed]
      cases closed : access.governance.closes domain with
      | true =>
          rw [closed] at found
          obtain rfl := Option.some.inj (Except.ok.inj found)
          exact ⟨_, rfl, .refl _ _ _⟩
      | false =>
          rw [closed] at found
          cases isAcl : access.auth.aclOf domain with
          | none =>
              rw [isAcl] at found
              obtain rfl := Option.some.inj (Except.ok.inj found)
              refine ⟨_, rfl, readsAlike_of_grants rfl (by cases role <;> rfl) ?_⟩
              intro _ isPrivate
              cases isPrivate
          | some acl =>
              rw [isAcl] at found
              obtain ⟨names, listed, rfl⟩ :=
                Option.map_eq_some_iff.mp (Except.ok.inj found)
              exact ⟨_, rfl, readsAlike_listed listed name role reflection⟩

theorem readsSource_iff (user : User) :
    side.readsSource (access.auth.aclOf domain) user = true ↔
      DomainRight.read ≤ user.asPrincipal.decide (access.auth.aclOf domain)
        (access.levelIn user.name domain (access.githubIn user.asPrincipal domain))
        (access.githubIn user.asPrincipal domain) := by
  obtain ⟨github, inputs, alike⟩ :=
    readerSide_inputs named found user.name user.role user.reflection
  rw [ReaderSide.readsSource, inputs, decide_eq_true_iff]
  exact alike.reads _

end

/-- The loop's reading of the page is each account's own, with its grant. -/
theorem readsPage_iff {grants : AList fun _ : Text => ReflectionLevel} (named : trim domain ≠ [])
    (found : access.readerSide access.governance domain (access.auth.aclOf domain).isSome =
      .ok (some side)) (user : User) :
    side.readsPage (access.auth.aclOf domain) grants user = true ↔
      ReflectionRight.read ≤ user.asPrincipal.decideReflection (access.auth.aclOf domain)
        (access.levelIn user.name domain (access.githubIn user.asPrincipal domain))
        (access.reflectionIn user.name domain (access.githubIn user.asPrincipal domain))
        (grants.lookup user.name) (access.githubIn user.asPrincipal domain) false := by
  obtain ⟨github, inputs, alike⟩ :=
    readerSide_inputs named found user.name user.role user.reflection
  rw [ReaderSide.readsPage, inputs, decide_eq_true_iff]
  have sameLevel := fun level memberReflection =>
    explicitLevel_congr user.role user.reflection (access.auth.aclOf domain) level
      memberReflection alike.governs
  unfold User.asPrincipal
  rw [read_le_decideReflection_account, read_le_decideReflection_account, alike.reads,
    alike.closes, sameLevel]

theorem anonymous_reads_iff (level : Option MemberLevel) :
    DomainRight.read ≤ Principal.decide .anonymous (access.auth.aclOf domain) level
        (access.githubIn .anonymous domain) ↔
      access.governance.anonymousReads domain (access.auth.aclOf domain).isSome = true := by
  rw [githubIn, Governance.input, Governance.anonymousReads]
  cases isGoverned : access.governance.of domain with
  | none =>
      have stillOpen : access.governance.closes domain = false := by
        rw [Governance.closes, isGoverned]
        rfl
      rw [stillOpen]
      cases access.auth.aclOf domain with
      | none => exact iff_of_true (le_refl DomainRight.read) rfl
      | some acl => exact iff_of_false DomainRight.not_read_le_none Bool.false_ne_true
  | some governor =>
      rw [Option.map_some]
      change DomainRight.read ≤ decideGoverned .anonymous _ _ ↔ _
      cases access.governance.closes domain with
      | true =>
          rw [Bool.or_true]
          exact iff_of_false DomainRight.not_read_le_none Bool.false_ne_true
      | false =>
          cases access.auth.aclOf domain with
          | some acl => exact iff_of_false DomainRight.not_read_le_none Bool.false_ne_true
          | none =>
              change DomainRight.read ≤ (if governor.repositoryPublic (trim domain) then
                DomainRight.read else DomainRight.none) ↔
                  governor.repositoryPublic (trim domain) = true
              cases governor.repositoryPublic (trim domain) with
              | true => decide
              | false => decide

section

variable (resolved : access.principal scope = .ok .anonymous) (named : trim domain ≠ [])
include resolved named

theorem right_anonymous :
    ∃ right, access.right scope domain = .ok right ∧
      (DomainRight.read ≤ right ↔
        access.governance.anonymousReads domain (access.auth.aclOf domain).isSome = true) := by
  obtain ⟨right, answered, -, reads⟩ :=
    right_of_decided (decidedRight_anonymous resolved named) rfl
  exact ⟨right, answered, reads.trans (anonymous_reads_iff none)⟩

theorem reflectionRight_anonymous :
    ∃ right, access.reflectionRight scope domain = .ok right ∧
      (ReflectionRight.read ≤ right ↔
        access.governance.anonymousReads domain (access.auth.aclOf domain).isSome = true) := by
  have inputs : access.reflectionInputs .anonymous domain =
      .ok (access.auth.aclOf domain, none, .asKnowledge, access.githubIn .anonymous domain) := by
    rw [reflectionInputs, AuthStore.domainVisibility_of_named named]
    dsimp only [bind, Except.bind]
    unfold githubIn
    cases access.governance.input .anonymous domain (access.auth.aclOf domain).isSome with
    | some github => rfl
    | none =>
        cases access.auth.aclOf domain with
        | none => rfl
        | some acl => rfl
  have grant : access.grantOf scope .anonymous domain = .ok none := by
    cases scope <;> rfl
  refine ⟨Principal.decideReflection .anonymous (access.auth.aclOf domain) none .asKnowledge
    none (access.githubIn .anonymous domain) false, ?_, ?_⟩
  · rw [reflectionRight, resolved]
    change (access.reflectionInputs .anonymous domain >>= _) = _
    rw [inputs]
    change (access.grantOf scope .anonymous domain >>= _) = _
    rw [grant]
    rfl
  · rw [← anonymous_reads_iff none]
    change ReflectionRight.read ≤ (if DomainRight.read ≤ Principal.decide .anonymous _ none _
      then ReflectionRight.read else ReflectionRight.none) ↔ _
    split
    · next reads => exact iff_of_true (by decide) reads
    · next hidden => exact iff_of_false (by decide) hidden

end

/-- What an answer of `cover` rests on. -/
structure Covered (access : DomainAccess) (page source : Text)
    (confirmed : Option (List Text)) : Prop where
  pageNamed : trim page ≠ []
  sourceNamed : trim source ≠ []
  anonymous : access.governance.anonymousReads page (access.auth.aclOf page).isSome = true →
    access.governance.anonymousReads source (access.auth.aclOf source).isSome = true
  accounts : ∀ user ∈ access.auth.listUsers, user.disabled = false →
    ReflectionRight.read ≤ user.asPrincipal.decideReflection (access.auth.aclOf page)
      (access.levelIn user.name page (access.githubIn user.asPrincipal page))
      (access.reflectionIn user.name page (access.githubIn user.asPrincipal page))
      (access.auth.grantFor page user.name) (access.githubIn user.asPrincipal page) false →
    DomainRight.read ≤ user.asPrincipal.decide (access.auth.aclOf source)
        (access.levelIn user.name source (access.githubIn user.asPrincipal source))
        (access.githubIn user.asPrincipal source) ∨
      ∃ names, confirmed = some names ∧ user.name ∈ names

theorem covered_of_cover (apart : trim page ≠ trim source)
    (covers : access.cover page source confirmed = .ok true) :
    access.Covered page source confirmed := by
  rw [cover, if_neg apart] at covers
  cases pageSeen : access.auth.domainVisibility page with
  | error error =>
      rw [pageSeen] at covers
      cases covers
  | ok pageAcl =>
  have pageNamed := AuthStore.named_of_domainVisibility pageSeen
  cases sourceSeen : access.auth.domainVisibility source with
  | error error =>
      rw [pageSeen, sourceSeen] at covers
      cases covers
  | ok sourceAcl =>
  have sourceNamed := AuthStore.named_of_domainVisibility sourceSeen
  rw [AuthStore.domainVisibility_of_named pageNamed,
    AuthStore.domainVisibility_of_named sourceNamed] at covers
  change (if _ then _ else if _ then _ else if _ then _ else
    access.readerSide access.governance page (access.auth.aclOf page).isSome >>= _) = _ at covers
  split at covers
  · cases Except.ok.inj covers
  split at covers
  · cases Except.ok.inj covers
  split at covers
  · cases Except.ok.inj covers
  next anonymous =>
  cases pageFound : access.readerSide access.governance page
      (access.auth.aclOf page).isSome with
  | error error =>
      rw [pageFound] at covers
      cases covers
  | ok pageSide? =>
  rw [pageFound] at covers
  cases pageSide? with
  | none => cases Except.ok.inj covers
  | some pageSide =>
  change (access.readerSide access.governance source (access.auth.aclOf source).isSome >>= _) = _
    at covers
  cases sourceFound : access.readerSide access.governance source
      (access.auth.aclOf source).isSome with
  | error error =>
      rw [sourceFound] at covers
      cases covers
  | ok sourceSide? =>
  rw [sourceFound] at covers
  cases sourceSide? with
  | none => cases Except.ok.inj covers
  | some sourceSide =>
  obtain ⟨grants, granted, grantFor⟩ := access.grantsOn_of_named pageNamed
  change (access.grantsOn page >>= _) = _ at covers
  rw [granted] at covers
  have each := List.all_eq_true.mp (Except.ok.inj covers)
  refine ⟨pageNamed, sourceNamed, ?_, ?_⟩
  · intro reads
    rw [reads, Bool.true_and, Bool.not_eq_true', Bool.not_eq_false] at anonymous
    exact anonymous
  · intro user listed live reads
    have answer := each user listed
    rw [live, Bool.false_or, Bool.not_eq_true', Bool.and_eq_false_iff,
      Bool.and_eq_false_iff] at answer
    rw [← grantFor, ← readsPage_iff pageNamed pageFound] at reads
    rw [← readsSource_iff sourceNamed sourceFound]
    rcases answer with (hidden | seen) | asked
    · rw [reads] at hidden
      cases hidden
    · exact .inl (by simpa using seen)
    · rw [Bool.not_eq_false', Option.any_eq_true] at asked
      obtain ⟨names, isConfirmed, member⟩ := asked
      exact .inr ⟨names, isConfirmed, List.mem_of_elem_eq_true member⟩

/-- The scope reads the Reflection pages of a domain. -/
def ReadsPages (access : DomainAccess) (scope : Scope) (domain : Text) : Prop :=
  ∃ right, access.reflectionRight scope domain = .ok right ∧ ReflectionRight.read ≤ right

/-- The scope reads the engrams of a domain. -/
def ReadsEngrams (access : DomainAccess) (scope : Scope) (domain : Text) : Prop :=
  ∃ right, access.right scope domain = .ok right ∧ DomainRight.read ≤ right

/-- The scope acts as one of the named accounts. -/
def ActsAs (access : DomainAccess) (scope : Scope) (names : List Text) : Prop :=
  ∃ name role reflection, access.principal scope = .ok (.account name role reflection) ∧
    name ∈ names

/-- The open tier stands in for an instance admin, clamped to editor. -/
def StandsInForAdmin (access : DomainAccess) (scope : Scope) : Prop :=
  ∃ account user, scope = .agent account ∧ access.auth.user account = .ok (some user) ∧
    user.disabled = false ∧ user.role = .admin

/-- More of a grant reads no less. -/
theorem reads_with_grant {level : Option MemberLevel} {memberReflection : ReflectionLevel}
    {grant held : Option ReflectionLevel} {github : Option Governed} {offList : Bool}
    (whose : grant = none ∨ grant = held)
    (reads : ReflectionRight.read ≤ Principal.decideReflection (.account name role reflection)
      acl level memberReflection grant github offList) :
    ReflectionRight.read ≤ Principal.decideReflection (.account name role reflection) acl level
      memberReflection held github false := by
  rw [read_le_decideReflection_account] at reads ⊢
  refine reads.imp_right fun ⟨opened, raised⟩ => ⟨opened, ?_⟩
  rcases whose with rfl | rfl
  · rw [← ReflectionLevel.reader_le_iff] at raised ⊢
    refine raised.trans (max_le_max le_rfl ?_)
    cases held with
    | none => exact le_rfl
    | some level => cases level <;> decide
  · exact raised

/-- One scope under what `cover` answered. -/
theorem Covered.readsEngrams (covered : access.Covered page source confirmed) (scope : Scope)
    (ordinary : ¬access.StandsInForAdmin scope)
    (unnamed : ∀ names, confirmed = some names → ¬access.ActsAs scope names)
    (reads : access.ReadsPages scope page) : access.ReadsEngrams scope source := by
  obtain ⟨right, answered, reads⟩ := reads
  cases resolved : access.principal scope with
  | error error =>
      rw [reflectionRight, resolved] at answered
      cases answered
  | ok principal =>
  cases principal with
  | unrestricted =>
      refine ⟨.own, ?_, by decide⟩
      rw [DomainAccess.right, resolvedRight, decidedRight, resolved]
      rfl
  | anonymous =>
      obtain ⟨pageRight, asked, readsPage⟩ := reflectionRight_anonymous resolved covered.pageNamed
      obtain ⟨sourceRight, found, readsSource⟩ := right_anonymous resolved covered.sourceNamed
      obtain rfl := Except.ok.inj (answered.symm.trans asked)
      exact ⟨sourceRight, found, readsSource.mpr (covered.anonymous (readsPage.mp reads))⟩
  | account name role reflection =>
      obtain ⟨offList, asked⟩ := reflectionRight_account resolved covered.pageNamed
      obtain ⟨sourceRight, found, readsSource⟩ := right_account resolved covered.sourceNamed
      obtain ⟨user, listed, live, rfl, rfl, -, isRole⟩ := principal_account resolved
      refine ⟨sourceRight, found, readsSource.mpr ?_⟩
      rcases isRole with rfl | rfl | ⟨account, isAgent, held, isAdmin⟩
      · obtain rfl := Except.ok.inj (answered.symm.trans asked)
        have whose := access.grantHeld_eq scope user.name page
        rcases covered.accounts user listed live (reads_with_grant whose reads) with
          readsIt | ⟨names, isConfirmed, member⟩
        · exact readsIt
        · exact absurd ⟨_, _, _, resolved, member⟩ (unnamed names isConfirmed)
      · exact admin_reads _ _ _ _ _
      · exact absurd ⟨account, user, isAgent, held, live, isAdmin⟩ ordinary

end DomainAccess

end Crystalline.Identity
