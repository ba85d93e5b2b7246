import Crystalline.Identity.Cover

/-!
# One answer for every domain

A listing asks once and reads every row from what it was told: which domains a
caller hears about, what it may write, and from the other side who reads one
domain.  Each answer is built from whole tables, where the question about one
domain asks for one row.
-/

namespace Crystalline.Identity

open Text Keyed

/-- `AuthStore::private_domains`. -/
def AuthStore.privateDomains (auth : AuthStore) : List DomainAcl :=
  auth.domainAcl.entries.map fun row => ⟨row.1, row.2⟩

/-- `DomainVisibility`: the private domains, those a caller may not read, and
whether it reads no shared domain at all. -/
structure DomainVisibility where
  isPrivate : List Text
  hidden : Option (List Text)
  sharedHidden : Bool

/-- `DomainScreen`. -/
inductive DomainScreen where
  | all
  | except (hidden : List Text)
  | only (readable : List Text)

/-- `DomainScreen::admits`. -/
def DomainScreen.admits (screen : DomainScreen) (domain : Text) : Bool :=
  match screen with
  | all => true
  | except hidden => domain ∉ hidden
  | only readable => domain ∈ readable

/-- `DomainVisibility::screen`. -/
def DomainVisibility.screen (visibility : DomainVisibility) : DomainScreen :=
  match visibility.hidden with
  | none => .all
  | some hidden =>
    if visibility.sharedHidden then
      .only (visibility.isPrivate.filter fun name => name ∉ hidden)
    else .except hidden

/-- `instance_cap`. -/
def instanceCap : Principal → DomainRight
  | .unrestricted => .own
  | .anonymous => .read
  | .account _ .none _ => .read
  | .account _ .viewer _ => .read
  | .account _ .editor _ => .write
  | .account _ .admin _ => .own

/-- `capped`. -/
def capped (principal : Principal) (right : DomainRight) : DomainRight :=
  if right < instanceCap principal then right else instanceCap principal

/-- `write_capped`. -/
def writeCapped (principal : Principal) (right : DomainRight) (isGoverned : Bool) : DomainRight :=
  if isGoverned then right else capped principal right

/-- `WriteRights`: the rows one caller's rights are decided from. -/
structure WriteRights where
  principal : Principal
  acls : AList fun _ : Text => DomainAcl
  levels : AList fun _ : Text => MemberLevel
  writeList : Option (List Text)
  governed : AList fun _ : Text => Governed

namespace WriteRights

variable (rights : WriteRights)

/-- `WriteRights::decided`. -/
def decided (domain : Text) : DomainRight :=
  match rights.principal with
  | .unrestricted => .own
  | principal =>
    let acl := rights.acls.lookup (trim domain)
    match rights.governed.lookup (trim domain) with
    | some governed => principal.decide acl none (some governed)
    | none =>
      let level := match acl, principal with
        | some _, .account _ _ _ => rights.levels.lookup (trim domain)
        | _, _ => none
      principal.decide acl level none

/-- `WriteRights::is_governed`. -/
def isGoverned (domain : Text) : Bool := (rights.governed.lookup (trim domain)).isSome

/-- `WriteRights::off_list`. -/
def offList (domain : Text) : Bool :=
  rights.writeList.any fun patterns => !writeListMatches patterns domain

/-- `WriteRights::write_right`. -/
def writeRight (domain : Text) : DomainRight :=
  let right := rights.decided domain
  let right := if .read < right ∧ rights.offList domain then .read else right
  writeCapped rights.principal right (rights.isGoverned domain)

/-- `WriteRights::write_list_excludes`. -/
def writeListExcludes (domain : Text) : Option Text :=
  let right := writeCapped rights.principal (rights.decided domain) (rights.isGoverned domain)
  if right < .write then none
  else
    match rights.principal with
    | .account name _ _ => if rights.offList domain then some name else none
    | _ => none

end WriteRights

namespace DomainAccess

variable (access : DomainAccess)

/-- Every private domain's acl row, by the name it is stored under. -/
def acls : AList fun _ : Text => DomainAcl :=
  collect (access.auth.privateDomains.map fun acl => (acl.domain, acl))

/-- The membership levels of an account; any other principal has none. -/
def levels (principal : Principal) : Except AuthError (AList fun _ : Text => MemberLevel) :=
  match principal with
  | .account name _ _ => do return collect (← access.auth.membershipsOf name)
  | _ => .ok ∅

/-- Whether a principal is an account at instance knowledge none. -/
def readsNoShared : Principal → Bool
  | .account _ .none _ => true
  | _ => false

/-- `DomainAccess::resolve_in`. -/
def resolveIn (principal : Principal) (governance : Governance) :
    Except AuthError DomainVisibility :=
  let acls := access.auth.privateDomains
  let isPrivate := acls.map DomainAcl.domain
  match principal with
  | .unrestricted => .ok ⟨isPrivate, none, false⟩
  | principal =>
    if acls.isEmpty && governance.domains.isEmpty then
      .ok ⟨isPrivate, some [], readsNoShared principal⟩
    else do
      let levels ← access.levels principal
      let hidden := (acls.filter fun acl =>
        acl.domain ∉ governance.domains ∧
          principal.decide (some acl) (levels.lookup acl.domain) none < .read).map
            DomainAcl.domain
      let governed := match governance.governor with
        | none => []
        | some governor => governance.domains.filter fun domain =>
          let acl := access.acls.lookup domain
          let input :=
            githubInput governor principal domain acl.isSome (governance.closes domain)
          principal.decide acl none (some input) < .read
      return ⟨isPrivate, some (hidden ++ governed), readsNoShared principal⟩

/-- `DomainAccess::visibility`. -/
def visibility (scope : Scope) : Except AuthError DomainVisibility := do
  let principal ← access.principal scope
  access.resolveIn principal access.governance

/-- `DomainAccess::governs`. -/
def governs (domain : Text) : Bool := (access.governance.of domain).isSome

/-- `DomainAccess::open_tier_visibility`. -/
def openTierVisibility (agent : Text) : Except AuthError DomainVisibility := do
  let governance := access.governance
  let anonymous ← access.resolveIn .anonymous governance
  let principal ← access.principal (.agent agent)
  let asAgent ← access.resolveIn principal governance
  let hidden := (anonymous.hidden.getD []).filter fun domain => domain ∉ governance.domains
  let governed := (asAgent.hidden.getD []).filter fun domain => domain ∈ governance.domains
  let shared := if asAgent.sharedHidden then
      governance.domains.filter fun domain => domain ∉ anonymous.isPrivate
    else []
  return ⟨anonymous.isPrivate, some (hidden ++ governed ++ shared), false⟩

/-- `DomainAccess::write_rights`. -/
def writeRights (scope : Scope) : Except AuthError WriteRights := do
  let principal ← access.principal scope
  let acls := access.acls
  let governance := access.governance
  let governed := match governance.governor with
    | none => ∅
    | some governor => collect (governance.domains.map fun domain =>
      (domain, githubInput governor principal domain (acls.lookup domain).isSome
        (governance.closes domain)))
  let writesSomewhere := .read < instanceCap principal ∨ governed.keys ≠ []
  match principal with
  | .account name _ _ =>
    let levels ← access.levels principal
    let listed := if writesSomewhere then access.auth.writeList name else .ok none
    return ⟨principal, acls, levels, ← listed, governed⟩
  | _ => return ⟨principal, acls, ∅, none, governed⟩

/-- `DomainAccess::write_right`. -/
def writeRight (scope : Scope) (domain : Text) : Except AuthError DomainRight := do
  let (principal, right, governed) ← access.decidedRight scope domain
  let right := writeCapped principal right governed
  if .read < right then
    match ← access.offListAccount principal domain with
    | some _ => return .read
    | none => return right
  else return right

/-- `DomainAccess::write_list_excludes`. -/
def writeListExcludes (scope : Scope) (domain : Text) : Except AuthError (Option Text) := do
  let (principal, right, governed) ← access.decidedRight scope domain
  if writeCapped principal right governed < .write then return none
  else access.offListAccount principal domain

/-- `DomainAccess::engram_readers`. -/
def engramReaders (acl : Option DomainAcl) (side : ReaderSide) : List Text :=
  (access.auth.listUsers.filter fun user => !user.disabled && side.readsSource acl user).map
    User.name

/-- `DomainAccess::readers_of`: `none` when every scope that reaches the instance
reads the domain. -/
def readersOf (domain : Text) : Except AuthError (Option (List Text)) := do
  let acl ← access.auth.domainVisibility domain
  let governance := access.governance
  match governance.of domain with
  | some governor =>
    if governance.closes domain then return some (access.engramReaders acl .closed)
    else
      match acl with
      | none =>
        if governor.repositoryPublic (trim domain) then return none
        else return some (access.engramReaders none (.governed []))
      | some acl =>
        -- an unknown listing fails closed: nobody is a GitHub reader
        return some (access.engramReaders (some acl)
          (.governed ((governor.readers (trim domain)).getD [])))
  | none =>
    match acl with
    | none => return none
    | some acl =>
      return some (access.engramReaders (some acl) (.members (← access.memberRows domain)))

end DomainAccess

end Crystalline.Identity
