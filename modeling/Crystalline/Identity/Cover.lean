import Crystalline.Identity.Access

/-!
# Who reads a page, and who reads its source

Text drawn from one domain's engrams may stand on a Reflection page of another
only when every reader of the page reads those engrams anyway.  The answer is a
loop over the accounts, with the callers that are no account decided apart.
-/

namespace Crystalline.Identity

open Text Keyed

/-- `ReaderSide`: what the loop over the accounts reads of one domain. -/
inductive ReaderSide where
  | members (rows : AList fun _ : Text => MemberLevel × ReflectionLevel)
  | governed (readers : List Text)
  | closed

/-- `PageReaders`. -/
inductive PageReaders where
  | everyone
  | accounts (names : List Text)
  deriving DecidableEq

namespace User

/-- The account a loop decides for. -/
def asPrincipal (user : User) : Principal := .account user.name user.role user.reflection

end User

namespace ReaderSide

/-- `ReaderSide::inputs`. -/
def inputs (side : ReaderSide) (name : Text) :
    Option MemberLevel × ReflectionLevel × Option Governed :=
  match side with
  | members rows =>
    match rows.lookup name with
    | some (level, reflection) => (some level, reflection, none)
    | none => (none, .asKnowledge, none)
  | governed readers =>
    let knowledge : GithubKnowledge :=
      if readers.elem name then .level .viewer else .unlinked
    (none, .asKnowledge, some ⟨knowledge, false, false⟩)
  | closed => (none, .asKnowledge, some ⟨.unlinked, false, true⟩)

/-- Whether an account reads the page: `reads_page` of the loop. -/
def readsPage (side : ReaderSide) (acl : Option DomainAcl)
    (grants : AList fun _ : Text => ReflectionLevel) (user : User) : Bool :=
  let (level, reflection, github) := side.inputs user.name
  ReflectionRight.read ≤ user.asPrincipal.decideReflection acl level reflection
    (grants.lookup user.name) github false

/-- Whether an account reads the engrams: `reads_source` of the loop. -/
def readsSource (side : ReaderSide) (acl : Option DomainAcl) (user : User) : Bool :=
  let (level, _, github) := side.inputs user.name
  DomainRight.read ≤ user.asPrincipal.decide acl level github

end ReaderSide

namespace DomainAccess

variable (access : DomainAccess)

/-- `DomainAccess::member_rows`. -/
def memberRows (domain : Text) :
    Except AuthError (AList fun _ : Text => MemberLevel × ReflectionLevel) := do
  let members ← access.auth.domainMembers domain
  return collect (members.map fun member =>
    (member.principal, member.level, member.reflection))

/-- `DomainAccess::grants_on`. -/
def grantsOn (domain : Text) : Except AuthError (AList fun _ : Text => ReflectionLevel) := do
  let grants ← access.auth.reflectionGrants domain
  return collect (grants.map fun grant => (grant.account, grant.level))

/-- `DomainAccess::reader_side`: `none` when the listing is not known. -/
def readerSide (governance : Governance) (domain : Text) (isPrivate : Bool) :
    Except AuthError (Option ReaderSide) :=
  match governance.of domain with
  | some governor =>
    if governance.closes domain then .ok (some .closed)
    else if isPrivate then .ok ((governor.readers (trim domain)).map .governed)
    else .ok (some (.governed []))
  | none => do
    if isPrivate then return some (.members (← access.memberRows domain))
    else return some (.members ∅)

/-- `DomainAccess::page_readers`. -/
def pageReaders (page : Text) : Except AuthError PageReaders := do
  let governance := access.governance
  let acl ← access.auth.domainVisibility page
  if governance.anonymousReads page acl.isSome then return .everyone
  else
    -- an unknown listing fails closed: nobody is a GitHub reader
    let side := (← access.readerSide governance page acl.isSome).getD (.governed [])
    let grants ← access.grantsOn page
    return .accounts ((access.auth.listUsers.filter fun user =>
      !user.disabled && side.readsPage acl grants user).map User.name)

/-- `DomainAccess::cover`: the page readers in `confirmed` count as covered. -/
def cover (page source : Text) (confirmed : Option (List Text)) : Except AuthError Bool :=
  if trim page = trim source then .ok true
  else do
    let governance := access.governance
    let pageAcl ← access.auth.domainVisibility page
    let sourceAcl ← access.auth.domainVisibility source
    let anonymousReadsPage := governance.anonymousReads page pageAcl.isSome
    -- nobody who reads without an account was ever named
    if anonymousReadsPage && confirmed.isSome then return false
    -- a shared page reaches accounts not made yet
    else if pageAcl.isNone && sourceAcl.isSome && confirmed.isNone then return false
    else if anonymousReadsPage && !governance.anonymousReads source sourceAcl.isSome then
      return false
    else
      match ← access.readerSide governance page pageAcl.isSome with
      | none => return false
      | some pageSide =>
        match ← access.readerSide governance source sourceAcl.isSome with
        | none => return false
        | some sourceSide =>
          let pageGrants ← access.grantsOn page
          return access.auth.listUsers.all fun user =>
            user.disabled ||
              !(pageSide.readsPage pageAcl pageGrants user &&
                !sourceSide.readsSource sourceAcl user &&
                !confirmed.any (List.elem user.name))

/-- `DomainAccess::readers_cover`. -/
def readersCover (page source : Text) : Except AuthError Bool :=
  access.cover page source none

/-- `DomainAccess::readers_cover_for`. -/
def readersCoverFor (page source : Text) (confirmed : PageReaders) : Except AuthError Bool :=
  match confirmed with
  | .everyone => .ok true
  | .accounts names => access.cover page source (some names)

end DomainAccess

namespace DomainAccess

variable {access : DomainAccess} {domain : Text}

theorem memberRows_of_named (access : DomainAccess) (named : trim domain ≠ []) :
    ∃ rows, access.memberRows domain = .ok rows ∧ ∀ name, rows.lookup name =
      (access.auth.memberOf domain name).map fun row => (row.level, row.reflection) := by
  rw [memberRows, AuthStore.domainMembers, normalizeDomain_of_named named]
  refine ⟨_, rfl, fun name => ?_⟩
  rw [List.map_map]
  exact Table.lookup_collect_byFirst access.auth.domainMember (trim domain) name
    fun row => (row.level, row.reflection)

theorem grantsOn_of_named (access : DomainAccess) (named : trim domain ≠ []) :
    ∃ grants, access.grantsOn domain = .ok grants ∧
      ∀ name, grants.lookup name = access.auth.grantFor domain name := by
  rw [grantsOn, AuthStore.reflectionGrants, normalizeDomain_of_named named]
  refine ⟨_, rfl, fun name => ?_⟩
  rw [List.map_map]
  have unchanged : ((fun grant : ReflectionGrant => (grant.account, grant.level)) ∘
      fun row : Text × ReflectionLevel => ⟨row.1, row.2⟩) = id := rfl
  rw [unchanged, List.map_id]
  exact Table.lookup_collect_filter_byFirst access.auth.reflectionGrant (trim domain) name
    fun level => level ≠ ReflectionLevel.asKnowledge

end DomainAccess

end Crystalline.Identity
