import Mathlib.Order.MinMax
import Crystalline.Keyed.Table
import Crystalline.Text.Trim

/-!
# Who may do what on one domain

A scope is resolved against the accounts, and the rights of the result are
decided from the domain's rows, or on a domain GitHub governs from what the
governor answers.  Each question takes one snapshot of the governed set.
-/

namespace Crystalline.Identity

open Text Keyed

section

/-- `Role`. -/
inductive Role where
  | none
  | viewer
  | editor
  | admin
  deriving DecidableEq, Repr

/-- `MemberLevel`. -/
inductive MemberLevel where
  | none
  | viewer
  | editor
  | manager
  deriving DecidableEq, Repr

/-- `ReflectionLevel`. -/
inductive ReflectionLevel where
  | asKnowledge
  | reader
  | contributor
  deriving DecidableEq, Repr

/-- `DomainRight`. -/
inductive DomainRight where
  | none
  | read
  | write
  | manage
  | own
  deriving DecidableEq, Repr

/-- `ReflectionRight`. -/
inductive ReflectionRight where
  | none
  | read
  | edit
  | curate
  deriving DecidableEq, Repr

namespace ReflectionLevel

def rank : ReflectionLevel → Nat
  | asKnowledge => 0
  | reader => 1
  | contributor => 2

theorem rank_injective : Function.Injective rank := by
  intro left right same
  cases left <;> cases right <;> first | rfl | cases same

instance : LinearOrder ReflectionLevel := LinearOrder.lift' rank rank_injective

theorem reader_le_iff {level : ReflectionLevel} : reader ≤ level ↔ level ≠ asKnowledge := by
  cases level <;> decide

end ReflectionLevel

namespace DomainRight

def rank : DomainRight → Nat
  | none => 0
  | read => 1
  | write => 2
  | manage => 3
  | own => 4

theorem rank_injective : Function.Injective rank := by
  intro left right same
  cases left <;> cases right <;> first | rfl | cases same

instance : LinearOrder DomainRight := LinearOrder.lift' rank rank_injective

theorem read_le_own : read ≤ own := by decide

theorem not_read_le_none : ¬read ≤ none := by decide

end DomainRight

namespace ReflectionRight

def rank : ReflectionRight → Nat
  | none => 0
  | read => 1
  | edit => 2
  | curate => 3

theorem rank_injective : Function.Injective rank := by
  intro left right same
  cases left <;> cases right <;> first | rfl | cases same

instance : LinearOrder ReflectionRight := LinearOrder.lift' rank rank_injective

end ReflectionRight

/-- `Scope`: who a request is acting as. -/
inductive Scope where
  | unrestricted
  | user (account : Text) (admin : Bool)
  | anonymous
  | agent (account : Text)
  deriving DecidableEq

/-- `DomainAcl`: the row of a private domain. -/
structure DomainAcl where
  domain : Text
  owner : Text
  deriving DecidableEq

/-- `GithubKnowledge`. -/
inductive GithubKnowledge where
  | level (level : MemberLevel)
  | unlinked
  deriving DecidableEq, Repr

/-- `Governed`: the GitHub half of the inputs. -/
structure Governed where
  knowledge : GithubKnowledge
  isPublic : Bool
  closed : Bool
  deriving DecidableEq

/-- `github_right`. -/
def githubRight : GithubKnowledge → DomainRight
  | .level .manager => .manage
  | .level .editor => .write
  | .level .viewer => .read
  | .level .none => .none
  | .unlinked => .none

/-- `Principal`: the scope resolved against the accounts. -/
inductive Principal where
  | unrestricted
  | account (name : Text) (role : Role) (reflection : ReflectionLevel)
  | anonymous
  deriving DecidableEq

/-- `decide_governed`. -/
def decideGoverned (principal : Principal) (isPrivate : Bool) (governed : Governed) :
    DomainRight :=
  if governed.closed then
    match principal with
    | .unrestricted => .own
    | .account _ .admin _ => .own
    | .account _ _ _ => .none
    | .anonymous => .none
  else
    match principal with
    | .unrestricted => .own
    | .anonymous => if !isPrivate && governed.isPublic then .read else .none
    | .account _ role _ =>
      match role with
      | .admin => .own
      | .none => .none
      | .viewer | .editor =>
        let base : DomainRight := if isPrivate then .none else .read
        let github := githubRight governed.knowledge
        if base < github then github else base

/-- `decide`. -/
def Principal.decide (principal : Principal) (acl : Option DomainAcl)
    (level : Option MemberLevel) (github : Option Governed) : DomainRight :=
  match github with
  | some governed => decideGoverned principal acl.isSome governed
  | none =>
    match principal with
    | .unrestricted => .own
    | .anonymous =>
      match acl with
      | some _ => .none
      | none => .read
    | .account name role _ =>
      if role = .admin then .own
      else
        match acl with
        | none =>
          match role with
          | .none => .none
          | .viewer => .read
          | .editor => .write
          | .admin => .own
        | some acl =>
          if acl.owner = name then .own
          else
            match level with
            | some .manager => .manage
            | some .editor => .write
            | some .viewer => .read
            | some .none => .none
            | none => .none

/-- The level on its own that counts beside the knowledge right: the
account's on a shared domain, the membership row's on a private one. -/
def explicitLevel (role : Role) (reflection : ReflectionLevel) (acl : Option DomainAcl)
    (level : Option MemberLevel) (memberReflection : ReflectionLevel)
    (github : Option Governed) : ReflectionLevel :=
  match github with
  | some _ =>
    if role = .none then .asKnowledge
    else
      match acl with
      | none => reflection
      | some _ => .asKnowledge
  | none =>
    match acl, level with
    | none, _ => reflection
    | some _, some _ => memberReflection
    | some _, none => .asKnowledge

/-- `decide_reflection`. -/
def Principal.decideReflection (principal : Principal) (acl : Option DomainAcl)
    (level : Option MemberLevel) (memberReflection : ReflectionLevel)
    (grant : Option ReflectionLevel) (github : Option Governed) (offList : Bool) :
    ReflectionRight :=
  let knowledge := principal.decide acl level github
  match principal with
  | .unrestricted => .curate
  | .anonymous => if .read ≤ knowledge then .read else .none
  | .account _ role reflection =>
    if github.any Governed.closed then
      if .write ≤ knowledge then .curate else .none
    else
      -- a grant only raises the explicit level
      let reflection :=
        max (explicitLevel role reflection acl level memberReflection github)
          (grant.getD .asKnowledge)
      let right : ReflectionRight :=
        if .write ≤ knowledge then .curate
        else
          let plain : ReflectionRight := if .read ≤ knowledge then .read else .none
          let raised : ReflectionRight :=
            match reflection with
            | .asKnowledge => .none
            | .reader => .read
            | .contributor => .edit
          max plain raised
      if offList then min right .read else right

variable {isPrivate : Bool}

theorem decideGoverned_closed {principal : Principal} {governed : Governed}
    (closed : governed.closed = true) :
    decideGoverned principal isPrivate governed = .own ∨
      decideGoverned principal isPrivate governed = .none := by
  unfold decideGoverned
  rw [if_pos closed]
  cases principal with
  | unrestricted => exact .inl rfl
  | anonymous => exact .inr rfl
  | account name role reflection =>
    cases role with
    | admin => exact .inl rfl
    | none => exact .inr rfl
    | viewer => exact .inr rfl
    | editor => exact .inr rfl

theorem admin_reads (name : Text) (reflection : ReflectionLevel) (acl : Option DomainAcl)
    (level : Option MemberLevel) (github : Option Governed) :
    DomainRight.read ≤ Principal.decide (.account name .admin reflection) acl level github := by
  cases github with
  | none => exact DomainRight.read_le_own
  | some governed =>
      obtain ⟨knowledge, isPublic, closed⟩ := governed
      cases closed with
      | true => exact DomainRight.read_le_own
      | false => exact DomainRight.read_le_own

variable {reflection : ReflectionLevel}

/-- A grant never takes the base of a shared domain away. -/
theorem read_le_raised (github : DomainRight) :
    DomainRight.read ≤ if DomainRight.read < github then github else DomainRight.read := by
  split
  · next above => exact above.le
  · exact le_rfl

theorem read_le_granted (github : DomainRight) :
    DomainRight.read ≤ (if DomainRight.none < github then github else DomainRight.none) ↔
      DomainRight.read ≤ github := by
  cases github <;> decide

/-- An account reads a domain GitHub governs by its grant and the shared base,
whatever level the grant is. -/
theorem read_le_decideGoverned_congr {name : Text} {role : Role} {left right : Governed}
    (closed : left.closed = right.closed)
    (alike : role = .viewer ∨ role = .editor → isPrivate = true → right.closed = false →
      (DomainRight.read ≤ githubRight left.knowledge ↔
        DomainRight.read ≤ githubRight right.knowledge)) :
    DomainRight.read ≤ decideGoverned (.account name role reflection) isPrivate left ↔
      DomainRight.read ≤ decideGoverned (.account name role reflection) isPrivate right := by
  unfold decideGoverned
  rw [closed]
  cases isClosed : right.closed with
  | true => rfl
  | false =>
    cases role with
    | none => rfl
    | admin => rfl
    | viewer =>
      cases isPrivate with
      | false => exact iff_of_true (read_le_raised _) (read_le_raised _)
      | true =>
          exact (read_le_granted _).trans
            ((alike (.inl rfl) rfl isClosed).trans (read_le_granted _).symm)
    | editor =>
      cases isPrivate with
      | false => exact iff_of_true (read_le_raised _) (read_le_raised _)
      | true =>
          exact (read_le_granted _).trans
            ((alike (.inr rfl) rfl isClosed).trans (read_le_granted _).symm)

theorem explicitLevel_congr (role : Role) (reflection : ReflectionLevel)
    (acl : Option DomainAcl) (level : Option MemberLevel) (memberReflection : ReflectionLevel)
    {left right : Option Governed} (governs : left.isSome = right.isSome) :
    explicitLevel role reflection acl level memberReflection left =
      explicitLevel role reflection acl level memberReflection right := by
  cases left with
  | none =>
      cases right with
      | none => rfl
      | some right => cases governs
  | some left =>
      cases right with
      | none => cases governs
      | some right => rfl

/-- An account reads a Reflection when it reads the engrams, or by a level of
its own, which opens no closed domain. -/
theorem read_le_decideReflection_account {name : Text} {role : Role} {acl : Option DomainAcl}
    {level : Option MemberLevel} {memberReflection : ReflectionLevel}
    {grant : Option ReflectionLevel} {github : Option Governed} {offList : Bool} :
    ReflectionRight.read ≤ Principal.decideReflection (.account name role reflection) acl level
        memberReflection grant github offList ↔
      DomainRight.read ≤ Principal.decide (.account name role reflection) acl level github ∨
        github.any Governed.closed = false ∧
          max (explicitLevel role reflection acl level memberReflection github)
            (grant.getD .asKnowledge) ≠ .asKnowledge := by
  have opened : ∀ (knowledge : DomainRight) (reflection : ReflectionLevel) (offList : Bool),
      (ReflectionRight.read ≤
        let right : ReflectionRight :=
          if .write ≤ knowledge then .curate
          else
            let plain : ReflectionRight := if .read ≤ knowledge then .read else .none
            let raised : ReflectionRight :=
              match reflection with
              | .asKnowledge => .none
              | .reader => .read
              | .contributor => .edit
            max plain raised
        if offList then min right .read else right) ↔
      DomainRight.read ≤ knowledge ∨ reflection ≠ .asKnowledge := by
    intro knowledge reflection offList
    cases knowledge <;> cases reflection <;> cases offList <;> decide
  unfold Principal.decideReflection
  cases closed : github.any Governed.closed with
  | false =>
    simp only [Bool.false_eq_true, if_false]
    rw [opened, true_and]
  | true =>
    obtain ⟨governed, isGoverned, isClosed⟩ := (Option.any_eq_true _ _).mp closed
    subst isGoverned
    simp only [if_true, Bool.true_eq_false, false_and, or_false]
    change ReflectionRight.read ≤ (if DomainRight.write ≤ decideGoverned
      (.account name role reflection) acl.isSome governed then ReflectionRight.curate
      else ReflectionRight.none) ↔ DomainRight.read ≤ decideGoverned
        (.account name role reflection) acl.isSome governed
    rcases decideGoverned_closed isClosed with owns | nothing
    · rw [owns]
      decide
    · rw [nothing]
      decide

end

/-- The refusals of the store's folds. -/
inductive AuthError where
  | invalidName (message : String)
  | other (message : String)
  deriving DecidableEq, Repr

/-- `normalize_account_name`, over `str::to_lowercase`. -/
def normalizeAccountName (toLowercase : Text → Text) (name : Text) : Except AuthError Text :=
  let trimmed := trim name
  if trimmed.isEmpty then .error (.invalidName "a user name cannot be empty")
  else if trimmed.any isWhitespace then
    .error (.invalidName
      "a login name cannot contain whitespace: pick a space-free name and put the readable form in the display name")
  else .ok (toLowercase trimmed)

/-- `normalize_domain`. -/
def normalizeDomain (domain : Text) : Except AuthError Text :=
  let trimmed := trim domain
  if trimmed.isEmpty then .error (.other "a domain name cannot be empty") else .ok trimmed

/-- `User`. -/
structure User where
  name : Text
  role : Role
  disabled : Bool
  reflection : ReflectionLevel
  deriving DecidableEq

/-- `DomainMember`. -/
structure DomainMember where
  principal : Text
  level : MemberLevel
  reflection : ReflectionLevel
  deriving DecidableEq

/-- `ReflectionGrant`. -/
structure ReflectionGrant where
  account : Text
  level : ReflectionLevel
  deriving DecidableEq

/-- The row of `users` under a name. -/
structure UserRow where
  role : Role
  disabled : Bool
  reflection : ReflectionLevel
  deriving DecidableEq

/-- The row of `domain_member` under a domain and a principal. -/
structure MemberRow where
  level : MemberLevel
  reflection : ReflectionLevel
  deriving DecidableEq

/-- `AuthStore`: the tables.  Accounts are made under folded names, which the
fold leaves alone. -/
structure AuthStore where
  toLowercase : Text → Text
  users : AList fun _ : Text => UserRow
  domainAcl : AList fun _ : Text => Text
  domainMember : Table Text Text MemberRow
  reflectionGrant : Table Text Text ReflectionLevel
  writeDomain : List (Text × Text)
  folded : ∀ name ∈ users, normalizeAccountName toLowercase name = .ok name

namespace AuthStore

variable (auth : AuthStore)

/-- `AuthStore::user`. -/
def user (name : Text) : Except AuthError (Option User) := do
  let name ← normalizeAccountName auth.toLowercase name
  return (auth.users.lookup name).map fun row => ⟨name, row.role, row.disabled, row.reflection⟩

/-- `AuthStore::list_users`. -/
def listUsers : List User :=
  auth.users.entries.map fun row =>
    ⟨row.1, row.2.role, row.2.disabled, row.2.reflection⟩

/-- `AuthStore::domain_visibility`. -/
def domainVisibility (domain : Text) : Except AuthError (Option DomainAcl) := do
  let domain ← normalizeDomain domain
  return (auth.domainAcl.lookup domain).map (DomainAcl.mk domain)

/-- `AuthStore::domain_members`. -/
def domainMembers (domain : Text) : Except AuthError (List DomainMember) := do
  let domain ← normalizeDomain domain
  return (auth.domainMember.byFirst domain).map fun row =>
    ⟨row.1, row.2.level, row.2.reflection⟩

/-- `AuthStore::memberships_of`. -/
def membershipsOf (user : Text) : Except AuthError (List (Text × MemberLevel)) := do
  let user ← normalizeAccountName auth.toLowercase user
  return (auth.domainMember.bySecond user).map fun row => (row.1, row.2.level)

/-- `AuthStore::member_reflection`. -/
def memberReflection (domain principal : Text) : Except AuthError ReflectionLevel := do
  let domain ← normalizeDomain domain
  let principal ← normalizeAccountName auth.toLowercase principal
  return ((auth.domainMember.lookup (domain, principal)).map MemberRow.reflection).getD
    .asKnowledge

/-- `AuthStore::reflection_grants`: a level that grants nothing is no grant. -/
def reflectionGrants (domain : Text) : Except AuthError (List ReflectionGrant) := do
  let domain ← normalizeDomain domain
  return ((auth.reflectionGrant.byFirst domain).filter
    fun row => row.2 ≠ .asKnowledge).map fun row => ⟨row.1, row.2⟩

/-- `AuthStore::reflection_grant`. -/
def reflectionGrantOf (domain account : Text) : Except AuthError (Option ReflectionLevel) := do
  let domain ← normalizeDomain domain
  let account ← normalizeAccountName auth.toLowercase account
  return match auth.reflectionGrant.lookup (domain, account) with
    | none => none
    | some .asKnowledge => none
    | some level => some level

/-- `AuthStore::write_list`: no row is no list. -/
def writeList (account : Text) : Except AuthError (Option (List Text)) := do
  let account ← normalizeAccountName auth.toLowercase account
  let patterns := auth.writeDomain.filterMap fun row =>
    if row.1 = account then some row.2 else none
  return if patterns.isEmpty then none else some patterns

end AuthStore

theorem normalizeDomain_of_named {domain : Text} (named : trim domain ≠ []) :
    normalizeDomain domain = .ok (trim domain) := by
  unfold normalizeDomain
  rw [if_neg]
  simpa using named

theorem named_of_normalizeDomain {domain folded : Text}
    (found : normalizeDomain domain = .ok folded) : trim domain ≠ [] := by
  intro blank
  unfold normalizeDomain at found
  rw [blank] at found
  cases found

namespace AuthStore

variable {auth : AuthStore}

/-- The acl row of a domain. -/
def aclOf (auth : AuthStore) (domain : Text) : Option DomainAcl :=
  (auth.domainAcl.lookup (trim domain)).map (DomainAcl.mk (trim domain))

/-- The membership row of an account. -/
def memberOf (auth : AuthStore) (domain name : Text) : Option MemberRow :=
  auth.domainMember.lookup (trim domain, name)

/-- The Reflection level a grant gives an account. -/
def grantFor (auth : AuthStore) (domain name : Text) : Option ReflectionLevel :=
  (auth.reflectionGrant.lookup (trim domain, name)).filter (· ≠ .asKnowledge)

variable {domain : Text}

theorem domainVisibility_of_named (named : trim domain ≠ []) :
    auth.domainVisibility domain = .ok (auth.aclOf domain) := by
  rw [domainVisibility, normalizeDomain_of_named named]
  rfl

theorem named_of_domainVisibility {acl : Option DomainAcl}
    (found : auth.domainVisibility domain = .ok acl) : trim domain ≠ [] := by
  cases folds : normalizeDomain domain with
  | ok folded => exact named_of_normalizeDomain folds
  | error error =>
      rw [domainVisibility, folds] at found
      cases found

variable {name : Text}

theorem user_eq_some {user : User} (found : auth.user name = .ok (some user)) :
    user ∈ auth.listUsers ∧ normalizeAccountName auth.toLowercase user.name = .ok user.name := by
  cases folds : normalizeAccountName auth.toLowercase name with
  | error error =>
      rw [AuthStore.user, folds] at found
      cases found
  | ok folded =>
      rw [AuthStore.user, folds] at found
      obtain ⟨row, held, rfl⟩ := Option.map_eq_some_iff.mp (Except.ok.inj found)
      have member := AList.mem_lookup_iff.mp (Option.mem_def.mpr held)
      refine ⟨List.mem_map.mpr ⟨_, member, rfl⟩, auth.folded folded ?_⟩
      exact AList.lookup_isSome.mp (Option.isSome_of_eq_some held)

theorem membershipsOf_find (auth : AuthStore) (domain : Text)
    (folded : normalizeAccountName auth.toLowercase name = .ok name) :
    ∃ memberships, auth.membershipsOf name = .ok memberships ∧
      (memberships.find? fun row => row.1 = trim domain).map Prod.snd =
        (auth.memberOf domain name).map MemberRow.level := by
  refine ⟨(auth.domainMember.bySecond name).map fun row => (row.1, row.2.level), ?_, ?_⟩
  · rw [membershipsOf, folded]
    rfl
  · rw [memberOf, ← Table.find_bySecond, List.find?_map, Option.map_map, Option.map_map]
    rfl

section

variable {name domain : Text} (named : trim domain ≠ [])
  (folded : normalizeAccountName auth.toLowercase name = .ok name)
include named folded

theorem memberReflection_of_folded :
    auth.memberReflection domain name =
      .ok (((auth.memberOf domain name).map MemberRow.reflection).getD .asKnowledge) := by
  rw [memberReflection, normalizeDomain_of_named named]
  change (normalizeAccountName auth.toLowercase name >>= _) = _
  rw [folded]
  rfl

theorem reflectionGrantOf_of_folded :
    auth.reflectionGrantOf domain name = .ok (auth.grantFor domain name) := by
  rw [reflectionGrantOf, normalizeDomain_of_named named]
  change (normalizeAccountName auth.toLowercase name >>= _) = _
  rw [folded, grantFor]
  change Except.ok _ = _
  cases auth.reflectionGrant.lookup (trim domain, name) with
  | none => rfl
  | some level => cases level <;> rfl

end

theorem writeList_of_folded (auth : AuthStore)
    (folded : normalizeAccountName auth.toLowercase name = .ok name) :
    ∃ patterns, auth.writeList name = .ok patterns := by
  rw [writeList, folded]
  exact ⟨_, rfl⟩

end AuthStore

/-- `KnowledgeGovernor`.  The listing of a repository's readers, where it is
known, names the accounts whose grant there reads. -/
structure KnowledgeGovernor where
  governedDomains : List Text
  closedDomains : List Text
  knowledge : (account domain : Text) → GithubKnowledge
  repositoryPublic : (domain : Text) → Bool
  readers : (domain : Text) → Option (List Text)
  readersAgree : ∀ domain names, readers domain = some names → ∀ account,
    account ∈ names ↔ DomainRight.read ≤ githubRight (knowledge account domain)

/-- `DomainAccess`. -/
structure DomainAccess where
  auth : AuthStore
  governor : Option KnowledgeGovernor

/-- `Governance`. -/
structure Governance where
  governor : Option KnowledgeGovernor
  domains : List Text
  closed : List Text

/-- `github_input`. -/
def githubInput (governor : KnowledgeGovernor) (principal : Principal) (domain : Text)
    (isPrivate closed : Bool) : Governed :=
  if closed then ⟨.unlinked, false, true⟩
  else
    match principal with
    | .account name .viewer _ => ⟨governor.knowledge name domain, false, false⟩
    | .account name .editor _ => ⟨governor.knowledge name domain, false, false⟩
    | .anonymous =>
      if isPrivate then ⟨.unlinked, false, false⟩
      else ⟨.unlinked, governor.repositoryPublic domain, false⟩
    | _ => ⟨.unlinked, false, false⟩

namespace Governance

variable (governance : Governance)

/-- `Governance::of`. -/
def of (domain : Text) : Option KnowledgeGovernor :=
  governance.governor.filter fun _ => governance.domains.elem (trim domain)

/-- `Governance::closes`. -/
def closes (domain : Text) : Bool :=
  (governance.of domain).isSome && governance.closed.elem (trim domain)

/-- `Governance::input`. -/
def input (principal : Principal) (domain : Text) (isPrivate : Bool) : Option Governed :=
  (governance.of domain).map fun governor =>
    githubInput governor principal (trim domain) isPrivate (governance.closes domain)

/-- `Governance::anonymous_reads`. -/
def anonymousReads (domain : Text) (isPrivate : Bool) : Bool :=
  if isPrivate || governance.closes domain then false
  else
    match governance.of domain with
    | some governor => governor.repositoryPublic (trim domain)
    | none => true

end Governance

/-- `write_list_matches`. -/
def writeListMatches (patterns : List Text) (domain : Text) : Bool :=
  patterns.any fun pattern =>
    match stripSuffix ['*'] pattern with
    | some stem => startsWith (trim domain) stem
    | none => pattern = trim domain

namespace DomainAccess

variable (access : DomainAccess)

/-- `DomainAccess::governance`. -/
def governance : Governance :=
  match access.governor with
  | some governor =>
    ⟨some governor, governor.governedDomains.map trim, governor.closedDomains.map trim⟩
  | none => ⟨none, [], []⟩

/-- `DomainAccess::principal`: an account the store no longer has, or has
disabled, is nobody in particular. -/
def principal (scope : Scope) : Except AuthError Principal :=
  match scope with
  | .unrestricted => .ok .unrestricted
  | .anonymous => .ok .anonymous
  | .user account admin => do
    match ← access.auth.user account with
    | none => return .anonymous
    | some user =>
      if user.disabled then return .anonymous
      else return .account user.name (if admin then .admin else user.role) user.reflection
  | .agent account => do
    match ← access.auth.user account with
    | none => return .anonymous
    | some user =>
      if user.disabled then return .anonymous
      else
        -- the open tier is never more than an editor
        let role := match user.role with
          | .admin => .editor
          | role => role
        return .account user.name role user.reflection

/-- `DomainAccess::level_of`. -/
def levelOf (account domain : Text) : Except AuthError (Option MemberLevel) := do
  let memberships ← access.auth.membershipsOf account
  return (memberships.find? fun row => row.1 = trim domain).map Prod.snd

/-- `DomainAccess::off_list_account`. -/
def offListAccount (principal : Principal) (domain : Text) : Except AuthError (Option Text) :=
  match principal with
  | .account name _ _ => do
    match ← access.auth.writeList name with
    | some patterns => return if writeListMatches patterns domain then none else some name
    | none => return none
  | _ => .ok none

/-- The membership level `decided_right` reads: none on a governed domain. -/
def rowLevel (acl : Option DomainAcl) (principal : Principal) (github : Option Governed)
    (domain : Text) : Except AuthError (Option MemberLevel) :=
  match acl, principal, github with
  | some _, .account name _ _, none => access.levelOf name domain
  | _, _, _ => .ok none

/-- `DomainAccess::decided_right`. -/
def decidedRight (scope : Scope) (domain : Text) :
    Except AuthError (Principal × DomainRight × Bool) := do
  match ← access.principal scope with
  | .unrestricted => return (.unrestricted, .own, false)
  | principal =>
    let acl ← access.auth.domainVisibility domain
    let github := access.governance.input principal domain acl.isSome
    let level ← access.rowLevel acl principal github domain
    return (principal, principal.decide acl level github, github.isSome)

/-- `DomainAccess::resolved_right`. -/
def resolvedRight (scope : Scope) (domain : Text) :
    Except AuthError (Principal × DomainRight) := do
  let (principal, right, _) ← access.decidedRight scope domain
  if .read < right then
    match ← access.offListAccount principal domain with
    | some _ => return (principal, .read)
    | none => return (principal, right)
  else return (principal, right)

/-- `DomainAccess::right`. -/
def right (scope : Scope) (domain : Text) : Except AuthError DomainRight := do
  return (← access.resolvedRight scope domain).2

/-- `DomainAccess::grant_of`. -/
def grantOf (scope : Scope) (principal : Principal) (domain : Text) :
    Except AuthError (Option ReflectionLevel) :=
  match scope, principal with
  | .user _ _, .account name _ _ => access.auth.reflectionGrantOf domain name
  | _, _ => .ok none

/-- `DomainAccess::reflection_inputs`. -/
def reflectionInputs (principal : Principal) (domain : Text) :
    Except AuthError
      (Option DomainAcl × Option MemberLevel × ReflectionLevel × Option Governed) := do
  let acl ← access.auth.domainVisibility domain
  match access.governance.input principal domain acl.isSome with
  | some github => return (acl, none, .asKnowledge, some github)
  | none =>
    match acl, principal with
    | some _, .account name _ _ =>
      let level ← access.levelOf name domain
      let memberReflection ← access.auth.memberReflection domain name
      return (acl, level, memberReflection, none)
    | _, _ => return (acl, none, .asKnowledge, none)

/-- `DomainAccess::reflection_right`. -/
def reflectionRight (scope : Scope) (domain : Text) : Except AuthError ReflectionRight := do
  match ← access.principal scope with
  | .unrestricted => return .curate
  | principal =>
    let (acl, level, memberReflection, github) ← access.reflectionInputs principal domain
    let grant ← access.grantOf scope principal domain
    let offList ← access.offListAccount principal domain
    return principal.decideReflection acl level memberReflection grant github offList.isSome

end DomainAccess

end Crystalline.Identity
