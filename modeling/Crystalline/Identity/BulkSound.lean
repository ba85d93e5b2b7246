import Crystalline.Identity.Bulk
import Crystalline.Identity.CoverSound

/-!
# The listing and the single question agree

On one trimmed domain name every whole table holds the row the single question
asks for, so each bulk answer comes down to the right the caller holds before
its write list, and the list never moves a right across `read`.
-/

namespace Crystalline.Identity

open Text Keyed

namespace DomainAccess

variable {access : DomainAccess} {scope : Scope} {domain : Text} {principal : Principal}

/-- The name as the tables store it. -/
structure StoredName (domain : Text) : Prop where
  trimmed : trim domain = domain
  named : domain ≠ []

theorem StoredName.trim_ne (stored : StoredName domain) : trim domain ≠ [] := by
  rw [stored.trimmed]
  exact stored.named

variable {auth : AuthStore}

theorem mem_privateDomains {acl : DomainAcl} :
    acl ∈ auth.privateDomains ↔ auth.domainAcl.lookup acl.domain = some acl.owner := by
  rw [AuthStore.privateDomains, List.mem_map, ← Option.mem_def, AList.mem_lookup_iff]
  constructor
  · rintro ⟨row, member, rfl⟩
    exact member
  · intro member
    exact ⟨_, member, rfl⟩

theorem mem_privateNames (stored : StoredName domain) :
    domain ∈ auth.privateDomains.map DomainAcl.domain ↔ (auth.aclOf domain).isSome = true := by
  rw [AuthStore.aclOf, Option.isSome_map, stored.trimmed, List.mem_map, Option.isSome_iff_exists]
  constructor
  · rintro ⟨acl, member, rfl⟩
    exact ⟨acl.owner, mem_privateDomains.mp member⟩
  · rintro ⟨owner, held⟩
    exact ⟨⟨domain, owner⟩, mem_privateDomains.mpr held, rfl⟩

theorem lookup_acls (stored : StoredName domain) :
    access.acls.lookup domain = access.auth.aclOf domain := by
  have distinct : ((access.auth.privateDomains.map fun acl => (acl.domain, acl)).map
      Prod.fst).Nodup := by
    rw [AuthStore.privateDomains, List.map_map, List.map_map]
    exact access.auth.domainAcl.nodupKeys
  rw [AuthStore.aclOf, stored.trimmed]
  refine Option.ext fun acl => ?_
  rw [acls, lookup_collect distinct, List.mem_map, Option.map_eq_some_iff]
  constructor
  · rintro ⟨other, member, same⟩
    obtain ⟨rfl, rfl⟩ := Prod.mk.inj same
    exact ⟨other.owner, mem_privateDomains.mp member, rfl⟩
  · rintro ⟨owner, held, rfl⟩
    exact ⟨⟨domain, owner⟩, mem_privateDomains.mpr held, rfl⟩

theorem levels_account {name : Text} {role : Role} {reflection : ReflectionLevel}
    (folded : normalizeAccountName access.auth.toLowercase name = .ok name) :
    ∃ rows, access.levels (.account name role reflection) = .ok rows ∧
      ∀ domain, StoredName domain →
        rows.lookup domain = (access.auth.memberOf domain name).map MemberRow.level := by
  have listed : access.auth.membershipsOf name =
      .ok ((access.auth.domainMember.bySecond name).map fun row => (row.1, row.2.level)) := by
    rw [AuthStore.membershipsOf, folded]
    rfl
  refine ⟨collect ((access.auth.domainMember.bySecond name).map fun row => (row.1, row.2.level)),
    ?_, fun domain stored => ?_⟩
  · rw [levels, listed]
    rfl
  · rw [AuthStore.memberOf, stored.trimmed]
    exact Table.lookup_collect_bySecond access.auth.domainMember domain name MemberRow.level

/-- An account among the principals goes by its folded name. -/
def IsFolded (access : DomainAccess) (principal : Principal) : Prop :=
  ∀ name role reflection, principal = .account name role reflection →
    normalizeAccountName access.auth.toLowercase name = .ok name

theorem isFolded_of_resolved (resolved : access.principal scope = .ok principal) :
    access.IsFolded principal := by
  rintro name role reflection rfl
  obtain ⟨-, -, -, -, -, folded, -⟩ := principal_account resolved
  exact folded

variable {governor : KnowledgeGovernor} {rows : AList fun _ : Text => MemberLevel}
  {writeList : Option (List Text)}

theorem of_eq_some {governance : Governance} (stored : StoredName domain) :
    governance.of domain = some governor ↔
      governance.governor = some governor ∧ domain ∈ governance.domains := by
  rw [Governance.of, Option.filter_eq_some_iff, stored.trimmed, List.elem_iff]

theorem governs_eq_false (ungoverned : access.governs domain = false) :
    access.governance.of domain = none := by
  rw [governs] at ungoverned
  exact Option.not_isSome_iff_eq_none.mp (by simp [ungoverned])

theorem governs_eq_true (governed : access.governs domain = true) :
    ∃ governor, access.governance.of domain = some governor :=
  Option.isSome_iff_exists.mp governed

theorem mem_domains_iff (stored : StoredName domain) :
    domain ∈ access.governance.domains ↔ access.governs domain = true := by
  rw [governs, Option.isSome_iff_exists]
  constructor
  · intro member
    cases isGovernor : access.governance.governor with
    | some governor => exact ⟨governor, (of_eq_some stored).mpr ⟨isGovernor, member⟩⟩
    | none =>
        have nothing : access.governance.domains = [] := by
          unfold governance at isGovernor ⊢
          cases held : access.governor with
          | none => rfl
          | some governor =>
              rw [held] at isGovernor
              cases isGovernor
        rw [nothing] at member
        cases member
  · rintro ⟨governor, found⟩
    exact ((of_eq_some stored).mp found).2

theorem githubIn_ungoverned (ungoverned : access.governs domain = false) :
    access.githubIn principal domain = none := by
  rw [githubIn, Governance.input, governs_eq_false ungoverned]
  rfl

theorem githubIn_governed (stored : StoredName domain)
    (found : access.governance.of domain = some governor) :
    access.githubIn principal domain = some (githubInput governor principal domain
      (access.auth.aclOf domain).isSome (access.governance.closes domain)) := by
  rw [githubIn, Governance.input, found, stored.trimmed]
  rfl

theorem isSome_githubIn : (access.githubIn principal domain).isSome = access.governs domain := by
  rw [githubIn, Governance.input, Option.isSome_map]
  rfl

theorem levelFor_governed (governed : access.governs domain = true) :
    access.levelFor principal domain = none := by
  have isSome : (access.githubIn principal domain).isSome = true := isSome_githubIn.trans governed
  cases principal with
  | unrestricted => rfl
  | anonymous => rfl
  | account name role reflection =>
      change access.levelIn name domain _ = none
      obtain ⟨github, isGithub⟩ := Option.isSome_iff_exists.mp isSome
      rw [isGithub, levelIn, Option.isNone_some, Bool.and_false]
      rfl

theorem levels_of_folded (folded : access.IsFolded principal) :
    ∃ rows, access.levels principal = .ok rows ∧ ∀ domain, StoredName domain →
      access.governs domain = false → (access.auth.aclOf domain).isSome = true →
        rows.lookup domain = access.levelFor principal domain := by
  cases principal with
  | unrestricted => exact ⟨∅, rfl, fun _ _ _ _ => rfl⟩
  | anonymous => exact ⟨∅, rfl, fun _ _ _ _ => rfl⟩
  | account name role reflection =>
      obtain ⟨rows, found, row⟩ := @levels_account _ name role reflection
        (folded name role reflection rfl)
      refine ⟨rows, found, fun domain stored ungoverned isPrivate => ?_⟩
      rw [row domain stored]
      change _ = access.levelIn name domain (access.githubIn _ domain)
      rw [githubIn_ungoverned ungoverned, levelIn, isPrivate]
      rfl

/-- What one visibility says of a caller: the private names, and of the private
and the governed ones those it may not read. -/
structure Screens (access : DomainAccess) (principal : Principal)
    (visibility : DomainVisibility) : Prop where
  isPrivate : visibility.isPrivate = access.auth.privateDomains.map DomainAcl.domain
  sharedHidden : visibility.sharedHidden = readsNoShared principal
  hidden : ∃ hidden, visibility.hidden = some hidden ∧ ∀ domain, StoredName domain →
    (domain ∈ hidden ↔ access.heldRight principal domain < .read ∧
      ((access.auth.aclOf domain).isSome = true ∨ access.governs domain = true))

/-- The private domains Crystalline decides that a caller may not read. -/
def hiddenHere (access : DomainAccess) (principal : Principal)
    (levels : AList fun _ : Text => MemberLevel) : List Text :=
  (access.auth.privateDomains.filter fun acl =>
    acl.domain ∉ access.governance.domains ∧
      principal.decide (some acl) (levels.lookup acl.domain) none < .read).map DomainAcl.domain

/-- The governed domains a caller may not read. -/
def hiddenByGovernor (access : DomainAccess) (principal : Principal) : List Text :=
  match access.governance.governor with
  | none => []
  | some governor => access.governance.domains.filter fun domain =>
    let acl := access.acls.lookup domain
    let input :=
      githubInput governor principal domain acl.isSome (access.governance.closes domain)
    principal.decide acl none (some input) < .read

theorem mem_hiddenHere (stored : StoredName domain)
    (row : access.governs domain = false → (access.auth.aclOf domain).isSome = true →
      rows.lookup domain = access.levelFor principal domain) :
    domain ∈ access.hiddenHere principal rows ↔
      access.governs domain = false ∧ (access.auth.aclOf domain).isSome = true ∧
        access.heldRight principal domain < .read := by
  have held : ∀ owner, access.auth.aclOf domain = some ⟨domain, owner⟩ →
      access.governs domain = false →
      access.heldRight principal domain =
        principal.decide (some ⟨domain, owner⟩) (rows.lookup domain) none := by
    intro owner isAcl ungoverned
    rw [row ungoverned (by rw [isAcl]; rfl), heldRight, isAcl, githubIn_ungoverned ungoverned]
  rw [hiddenHere, List.mem_map]
  constructor
  · rintro ⟨acl, kept, rfl⟩
    obtain ⟨member, both⟩ := List.mem_filter.mp kept
    obtain ⟨outside, below⟩ := of_decide_eq_true both
    have ungoverned : access.governs acl.domain = false :=
      Bool.eq_false_iff.mpr (mt (mem_domains_iff stored).mpr outside)
    have isAcl : access.auth.aclOf acl.domain = some ⟨acl.domain, acl.owner⟩ := by
      rw [AuthStore.aclOf, stored.trimmed, mem_privateDomains.mp member]
      rfl
    exact ⟨ungoverned, by rw [isAcl]; rfl, (held acl.owner isAcl ungoverned).trans_lt below⟩
  · rintro ⟨ungoverned, isPrivate, below⟩
    obtain ⟨acl, member, rfl⟩ := List.mem_map.mp ((mem_privateNames stored).mpr isPrivate)
    have isAcl : access.auth.aclOf acl.domain = some ⟨acl.domain, acl.owner⟩ := by
      rw [AuthStore.aclOf, stored.trimmed, mem_privateDomains.mp member]
      rfl
    have outside : acl.domain ∉ access.governance.domains := by
      rw [mem_domains_iff stored, ungoverned]
      exact Bool.false_ne_true
    refine ⟨acl, List.mem_filter.mpr ⟨member, decide_eq_true ⟨outside, ?_⟩⟩, rfl⟩
    exact (held acl.owner isAcl ungoverned).symm.trans_lt below

theorem mem_hiddenByGovernor (stored : StoredName domain) :
    domain ∈ access.hiddenByGovernor principal ↔
      access.governs domain = true ∧ access.heldRight principal domain < .read := by
  rw [← mem_domains_iff stored, hiddenByGovernor]
  cases isGovernor : access.governance.governor with
  | none =>
      refine iff_of_false List.not_mem_nil fun ⟨member, _⟩ => ?_
      obtain ⟨governor, found⟩ := governs_eq_true ((mem_domains_iff stored).mp member)
      rw [((of_eq_some stored).mp found).1] at isGovernor
      cases isGovernor
  | some governor =>
      dsimp only
      rw [List.mem_filter]
      refine and_congr_right fun member => ?_
      have found := (of_eq_some stored).mpr ⟨isGovernor, member⟩
      rw [decide_eq_true_iff, heldRight, levelFor_governed ((mem_domains_iff stored).mp member),
        githubIn_governed stored found, lookup_acls stored]

theorem resolveIn_screens (restricted : principal ≠ .unrestricted)
    (folded : access.IsFolded principal) :
    ∃ visibility, access.resolveIn principal access.governance = .ok visibility ∧
      access.Screens principal visibility := by
  obtain ⟨rows, found, row⟩ := levels_of_folded folded
  have shape : access.resolveIn principal access.governance =
      if access.auth.privateDomains.isEmpty && access.governance.domains.isEmpty then
        .ok ⟨access.auth.privateDomains.map DomainAcl.domain, some [], readsNoShared principal⟩
      else
        .ok ⟨access.auth.privateDomains.map DomainAcl.domain,
          some (access.hiddenHere principal rows ++ access.hiddenByGovernor principal),
          readsNoShared principal⟩ := by
    cases principal with
    | unrestricted => exact absurd rfl restricted
    | anonymous =>
        unfold resolveIn
        dsimp only
        rw [found]
        rfl
    | account name role reflection =>
        unfold resolveIn
        dsimp only
        rw [found]
        rfl
  rw [shape]
  split
  · next nothing =>
    rw [Bool.and_eq_true, List.isEmpty_iff, List.isEmpty_iff] at nothing
    refine ⟨_, rfl, rfl, rfl, [], rfl, fun domain stored => ?_⟩
    rw [← mem_privateNames stored, ← mem_domains_iff stored, nothing.1, nothing.2]
    simp
  · refine ⟨_, rfl, rfl, rfl, _, rfl, fun domain stored => ?_⟩
    rw [List.mem_append, mem_hiddenHere stored (row domain stored), mem_hiddenByGovernor stored]
    cases access.governs domain <;> simp [and_comm]

theorem decide_unrestricted (acl : Option DomainAcl) (level : Option MemberLevel)
    (github : Option Governed) : Principal.decide .unrestricted acl level github = .own := by
  cases github with
  | none => rfl
  | some governed =>
      obtain ⟨knowledge, isPublic, closed⟩ := governed
      cases closed <;> rfl

theorem held_unrestricted (access : DomainAccess) (domain : Text) :
    access.heldRight .unrestricted domain = .own := decide_unrestricted _ _ _

/-- A shared domain Crystalline decides is read by every caller but an account at
instance knowledge none. -/
theorem read_le_decide_shared (principal : Principal) (level : Option MemberLevel) :
    DomainRight.read ≤ principal.decide none level none ↔ readsNoShared principal = false := by
  cases principal with
  | unrestricted => exact iff_of_true DomainRight.read_le_own rfl
  | anonymous => exact iff_of_true (le_refl DomainRight.read) rfl
  | account name role reflection =>
    cases role with
    | none => exact iff_of_false DomainRight.not_read_le_none Bool.noConfusion
    | viewer => exact iff_of_true (le_refl DomainRight.read) rfl
    | editor => exact iff_of_true (by decide : DomainRight.read ≤ DomainRight.write) rfl
    | admin => exact iff_of_true DomainRight.read_le_own rfl

theorem decide_none_governed (none : readsNoShared principal = true) (acl : Option DomainAcl)
    (level : Option MemberLevel) (governed : Governed) :
    principal.decide acl level (some governed) = .none := by
  cases principal with
  | unrestricted => cases none
  | anonymous => cases none
  | account name role reflection =>
    cases role with
    | none =>
        obtain ⟨knowledge, isPublic, closed⟩ := governed
        cases closed <;> rfl
    | viewer => cases none
    | editor => cases none
    | admin => cases none

section

variable (isShared : (access.auth.aclOf domain).isSome = false)
include isShared

theorem aclOf_eq_none : access.auth.aclOf domain = none :=
  Option.not_isSome_iff_eq_none.mp (by simp [isShared])

theorem held_shared (ungoverned : access.governs domain = false) :
    DomainRight.read ≤ access.heldRight principal domain ↔ readsNoShared principal = false := by
  rw [heldRight, githubIn_ungoverned ungoverned, aclOf_eq_none isShared]
  exact read_le_decide_shared principal _

/-- An account at instance knowledge none reads no shared domain, governed or
not. -/
theorem held_shared_none (none : readsNoShared principal = true) :
    ¬ DomainRight.read ≤ access.heldRight principal domain := by
  cases governed : access.governs domain with
  | false =>
      rw [held_shared isShared governed, none]
      exact Bool.noConfusion
  | true =>
      have isSome : (access.githubIn principal domain).isSome = true :=
        isSome_githubIn.trans governed
      obtain ⟨github, isGithub⟩ := Option.isSome_iff_exists.mp isSome
      rw [heldRight, isGithub, decide_none_governed none]
      exact DomainRight.not_read_le_none

end

/-- The screen of a visibility lets through the domains the caller reads. -/
theorem Screens.admits_iff {visibility : DomainVisibility} (stored : StoredName domain)
    (screens : access.Screens principal visibility) :
    visibility.screen.admits domain = true ↔
      DomainRight.read ≤ access.heldRight principal domain := by
  obtain ⟨hidden, isHidden, kept⟩ := screens.hidden
  have known := kept domain stored
  rw [DomainVisibility.screen, isHidden, screens.sharedHidden, screens.isPrivate]
  dsimp only
  cases none : readsNoShared principal with
  | true =>
      rw [if_pos rfl, DomainScreen.admits, decide_eq_true_iff, List.mem_filter,
        mem_privateNames stored, decide_eq_true_iff, known]
      cases isPrivate : (access.auth.aclOf domain).isSome with
      | false =>
          exact iff_of_false (fun both => Bool.false_ne_true both.1)
            (held_shared_none isPrivate none)
      | true => simp
  | false =>
      rw [if_neg Bool.false_ne_true, DomainScreen.admits, decide_eq_true_iff, known]
      cases isPrivate : (access.auth.aclOf domain).isSome with
      | true => simp
      | false =>
          cases governed : access.governs domain with
          | true => simp
          | false =>
              rw [held_shared isPrivate governed, none]
              simp

section

variable (resolved : access.principal scope = .ok principal)
include resolved

theorem visibility_of_resolved :
    access.visibility scope = access.resolveIn principal access.governance := by
  rw [visibility, resolved]
  rfl

theorem visibility_admits :
    ∃ visibility, access.visibility scope = .ok visibility ∧ ∀ domain, StoredName domain →
      (visibility.screen.admits domain = true ↔
        DomainRight.read ≤ access.heldRight principal domain) := by
  rw [visibility_of_resolved resolved]
  by_cases unrestricted : principal = .unrestricted
  · subst unrestricted
    refine ⟨_, rfl, fun domain _ => ?_⟩
    rw [held_unrestricted]
    exact iff_of_true rfl DomainRight.read_le_own
  · obtain ⟨visibility, found, screens⟩ :=
      resolveIn_screens unrestricted (isFolded_of_resolved resolved)
    exact ⟨visibility, found, fun domain stored => screens.admits_iff stored⟩

end

/-- Whether a write list keeps an account off a domain. -/
def isOffList (access : DomainAccess) (principal : Principal) (domain : Text) : Bool :=
  match access.offListAccount principal domain with
  | .ok off? => off?.isSome
  | .error _ => false

/-- Whether the instance cap is lifted for a caller: never for the machine
owner, who is decided before GitHub is asked. -/
def liftsCap (access : DomainAccess) (principal : Principal) (domain : Text) : Bool :=
  match principal with
  | .unrestricted => false
  | _ => access.governs domain

theorem decidedRight_of_resolved (resolved : access.principal scope = .ok principal)
    (named : trim domain ≠ []) :
    access.decidedRight scope domain =
      .ok (principal, access.heldRight principal domain, access.liftsCap principal domain) := by
  cases principal with
  | unrestricted =>
      rw [decidedRight, resolved, held_unrestricted]
      rfl
  | anonymous =>
      rw [decidedRight_anonymous resolved named, isSome_githubIn]
      rfl
  | account name role reflection =>
      rw [decidedRight_account resolved named, isSome_githubIn]
      rfl

/-- The name of a caller that is an account. -/
def accountName : Principal → Option Text
  | .account name _ _ => some name
  | _ => none

theorem isOffList_eq_false (unnamed : accountName principal = none) :
    access.isOffList principal domain = false := by
  cases principal with
  | unrestricted => rfl
  | anonymous => rfl
  | account name role reflection => cases unnamed

theorem isOffList_account {name : Text} {role : Role} {reflection : ReflectionLevel}
    {patterns : Option (List Text)} (listed : access.auth.writeList name = .ok patterns) :
    access.offListAccount (.account name role reflection) domain =
        .ok (if access.isOffList (.account name role reflection) domain then some name
          else none) ∧
      access.isOffList (.account name role reflection) domain =
        patterns.any fun patterns => !writeListMatches patterns domain := by
  rw [isOffList, offListAccount, listed]
  cases patterns with
  | none => exact ⟨rfl, rfl⟩
  | some patterns =>
      change (Except.ok (if writeListMatches patterns domain then none else some name) :
        Except AuthError (Option Text)) = Except.ok (if Option.isSome
          (if writeListMatches patterns domain then none else some name) then _ else _) ∧
          Option.isSome (if writeListMatches patterns domain then none else some name) = _
      cases isListed : writeListMatches patterns domain with
      | true => exact ⟨rfl, by simp [isListed]⟩
      | false => exact ⟨rfl, by simp [isListed]⟩

theorem offListAccount_eq (folded : access.IsFolded principal) (domain : Text) :
    access.offListAccount principal domain =
      .ok (if access.isOffList principal domain then accountName principal else none) := by
  cases principal with
  | unrestricted => rfl
  | anonymous => rfl
  | account name role reflection =>
      obtain ⟨patterns, listed⟩ :=
        access.auth.writeList_of_folded (folded name role reflection rfl)
      exact (isOffList_account listed).1

section

variable (resolved : access.principal scope = .ok principal) (named : trim domain ≠ [])
include resolved named

theorem right_of_resolved :
    ∃ right, access.right scope domain = .ok right ∧ right ≤ access.heldRight principal domain ∧
      (DomainRight.read ≤ right ↔ DomainRight.read ≤ access.heldRight principal domain) := by
  exact right_of_decided (decidedRight_of_resolved resolved named)
    (offListAccount_eq (isFolded_of_resolved resolved) domain)

theorem readsEngrams_iff :
    access.ReadsEngrams scope domain ↔ DomainRight.read ≤ access.heldRight principal domain := by
  obtain ⟨right, answered, -, reads⟩ := right_of_resolved resolved named
  rw [← reads]
  constructor
  · rintro ⟨other, also, readsOther⟩
    obtain rfl := Except.ok.inj (answered.symm.trans also)
    exact readsOther
  · exact fun readsRight => ⟨right, answered, readsRight⟩

/-- A right under the instance cap, then under the write list. -/
theorem writeRight_of_resolved :
    access.writeRight scope domain =
      .ok (if DomainRight.read < writeCapped principal (access.heldRight principal domain)
            (access.liftsCap principal domain) ∧ access.isOffList principal domain = true then .read
        else writeCapped principal (access.heldRight principal domain)
          (access.liftsCap principal domain)) := by
  rw [writeRight, decidedRight_of_resolved resolved named]
  generalize access.heldRight principal domain = held
  change (if DomainRight.read < writeCapped principal held (access.liftsCap principal domain) then
    (access.offListAccount principal domain >>= _) else _) = _
  rw [offListAccount_eq (isFolded_of_resolved resolved) domain]
  generalize writeCapped principal held (access.liftsCap principal domain) = right
  cases off : access.isOffList principal domain with
  | false =>
      rw [if_neg (by simp : ¬ (DomainRight.read < right ∧ false = true))]
      split <;> rfl
  | true =>
      cases named : accountName principal with
      | none =>
          rw [isOffList_eq_false named] at off
          cases off
      | some name =>
          by_cases above : DomainRight.read < right
          · rw [if_pos above, if_pos (rfl : true = true), if_pos (And.intro above rfl)]
            rfl
          · rw [if_neg above, if_neg fun both => above both.1]
            rfl

theorem writeListExcludes_of_resolved :
    access.writeListExcludes scope domain =
      .ok (if writeCapped principal (access.heldRight principal domain)
            (access.liftsCap principal domain) < .write then none
        else if access.isOffList principal domain then accountName principal else none) := by
  rw [writeListExcludes, decidedRight_of_resolved resolved named]
  generalize access.heldRight principal domain = held
  change (if writeCapped principal held (access.liftsCap principal domain) < .write then _
    else access.offListAccount principal domain) = _
  rw [offListAccount_eq (isFolded_of_resolved resolved) domain]
  split <;> rfl

end

/-- What GitHub says of a caller on every governed domain, read at once. -/
def governedInputs (access : DomainAccess) (principal : Principal) :
    AList fun _ : Text => Governed :=
  match access.governance.governor with
  | none => ∅
  | some governor => collect (access.governance.domains.map fun domain =>
    (domain, githubInput governor principal domain (access.acls.lookup domain).isSome
      (access.governance.closes domain)))

theorem lookup_governedInputs (stored : StoredName domain) :
    (access.governedInputs principal).lookup domain = access.githubIn principal domain := by
  unfold governedInputs
  cases isGovernor : access.governance.governor with
  | none =>
      have ungoverned : access.governs domain = false := by
        rw [governs, Governance.of, isGovernor]
        rfl
      rw [githubIn_ungoverned ungoverned]
      rfl
  | some governor =>
      dsimp only
      rw [lookup_collect_keys fun domain => githubInput governor principal domain
        (access.acls.lookup domain).isSome (access.governance.closes domain)]
      by_cases member : domain ∈ access.governance.domains
      · rw [if_pos member, lookup_acls stored,
          githubIn_governed stored ((of_eq_some stored).mpr ⟨isGovernor, member⟩)]
      · rw [if_neg member, githubIn_ungoverned]
        exact Bool.eq_false_iff.mpr (mt (mem_domains_iff stored).mpr member)

/-- The rows of a listing. -/
def listing (access : DomainAccess) (principal : Principal)
    (rows : AList fun _ : Text => MemberLevel) (writeList : Option (List Text)) : WriteRights :=
  ⟨principal, access.acls, rows, writeList, access.governedInputs principal⟩

theorem decided_listing (stored : StoredName domain)
    (row : access.governs domain = false → (access.auth.aclOf domain).isSome = true →
      rows.lookup domain = access.levelFor principal domain) :
    (access.listing principal rows writeList).decided domain =
      access.heldRight principal domain := by
  cases governed : access.governs domain with
  | true =>
      obtain ⟨governor, found⟩ := governs_eq_true governed
      have isGithub := @githubIn_governed _ _ principal _ stored found
      rw [WriteRights.decided, heldRight, levelFor_governed governed, isGithub]
      unfold listing
      dsimp only
      rw [stored.trimmed, lookup_acls stored, lookup_governedInputs stored, isGithub]
      cases principal with
      | unrestricted => exact (decide_unrestricted _ _ _).symm
      | anonymous => rfl
      | account name role reflection => rfl
  | false =>
      have noGithub := @githubIn_ungoverned _ _ principal governed
      rw [WriteRights.decided, heldRight, noGithub]
      unfold listing
      dsimp only
      rw [stored.trimmed, lookup_acls stored, lookup_governedInputs stored, noGithub]
      cases principal with
      | unrestricted => exact (decide_unrestricted _ _ _).symm
      | anonymous =>
          cases access.auth.aclOf domain <;> rfl
      | account name role reflection =>
          cases isAcl : access.auth.aclOf domain with
          | none => rfl
          | some acl =>
              rw [← row governed (by rw [isAcl]; rfl)]

theorem isGoverned_listing (stored : StoredName domain) :
    (access.listing principal rows writeList).isGoverned domain = access.governs domain := by
  unfold WriteRights.isGoverned listing
  dsimp only
  rw [stored.trimmed, lookup_governedInputs stored, isSome_githubIn]

/-- What a listing was told: the rows of the caller, and its write list unless
the caller writes nowhere. -/
theorem writeRights_of_resolved (resolved : access.principal scope = .ok principal) :
    ∃ rows writeList, access.writeRights scope = .ok (access.listing principal rows writeList) ∧
      (∀ domain, StoredName domain → access.governs domain = false →
        (access.auth.aclOf domain).isSome = true →
          rows.lookup domain = access.levelFor principal domain) ∧
      ((∀ domain, writeList.any (fun patterns => !writeListMatches patterns domain) =
          access.isOffList principal domain) ∨
        writeList = none ∧ instanceCap principal ≤ .read ∧
          ∀ domain, StoredName domain → access.governs domain = false) := by
  have folded := isFolded_of_resolved resolved
  obtain ⟨rows, found, row⟩ := levels_of_folded folded
  cases principal with
  | unrestricted =>
      refine ⟨∅, none, ?_, fun _ _ _ _ => rfl, .inl fun _ => rfl⟩
      rw [writeRights, resolved]
      rfl
  | anonymous =>
      refine ⟨∅, none, ?_, fun _ _ _ _ => rfl, .inl fun _ => rfl⟩
      rw [writeRights, resolved]
      rfl
  | account name role reflection =>
      obtain ⟨patterns, listed⟩ :=
        access.auth.writeList_of_folded (folded name role reflection rfl)
      by_cases writes : DomainRight.read < instanceCap (.account name role reflection) ∨
          (access.governedInputs (.account name role reflection)).keys ≠ []
      · refine ⟨rows, patterns, ?_, row, .inl fun domain => (isOffList_account listed).2.symm⟩
        rw [writeRights, resolved]
        change (access.levels _ >>= fun levels => (if DomainRight.read <
          instanceCap (.account name role reflection) ∨
            (access.governedInputs (.account name role reflection)).keys ≠ [] then
              access.auth.writeList name else .ok none) >>= _) = _
        rw [found, if_pos writes, listed]
        rfl
      · refine ⟨rows, none, ?_, row, .inr ⟨rfl, ?_, fun domain stored => ?_⟩⟩
        · rw [writeRights, resolved]
          change (access.levels _ >>= fun levels => (if DomainRight.read <
            instanceCap (.account name role reflection) ∨
              (access.governedInputs (.account name role reflection)).keys ≠ [] then
                access.auth.writeList name else .ok none) >>= _) = _
          rw [found, if_neg writes]
          rfl
        · exact not_lt.mp fun above => writes (.inl above)
        · -- a governed name would be a key of what GitHub was asked
          rw [Bool.eq_false_iff]
          intro governed
          have held : ((access.governedInputs (.account name role reflection)).lookup
              domain).isSome = true := by
            rw [lookup_governedInputs stored, isSome_githubIn, governed]
          exact writes (.inr (List.ne_nil_of_mem (AList.mem_keys.mp (AList.lookup_isSome.mp held))))

theorem read_le_instanceCap (principal : Principal) : .read ≤ instanceCap principal := by
  cases principal with
  | unrestricted => exact DomainRight.read_le_own
  | anonymous => exact le_refl DomainRight.read
  | account name role reflection =>
    cases role with
    | none => exact le_refl DomainRight.read
    | viewer => exact le_refl DomainRight.read
    | editor => exact (by decide : DomainRight.read ≤ DomainRight.write)
    | admin => exact DomainRight.read_le_own

theorem capped_eq_min (principal : Principal) (right : DomainRight) :
    capped principal right = min right (instanceCap principal) := (min_def_lt _ _).symm

/-- The list before the cap leaves what the cap before the list leaves: the cap
is never under `read`. -/
theorem writeCapped_listed (principal : Principal) (held : DomainRight) (governed off : Bool) :
    writeCapped principal (if DomainRight.read < held ∧ off = true then .read else held) governed =
      if DomainRight.read < writeCapped principal held governed ∧ off = true then .read
      else writeCapped principal held governed := by
  have cap := read_le_instanceCap principal
  cases governed with
  | true => rfl
  | false =>
      unfold writeCapped
      rw [if_neg Bool.false_ne_true, if_neg Bool.false_ne_true, capped_eq_min, capped_eq_min]
      by_cases above : DomainRight.read < held ∧ off = true
      · rw [if_pos above, min_eq_left cap]
        split
        · rfl
        · next short =>
          rw [not_and] at short
          have floor : DomainRight.read ≤ min held (instanceCap principal) :=
            le_min above.1.le cap
          exact le_antisymm floor (not_lt.mp fun more => short more above.2)
      · rw [if_neg above, if_neg]
        rintro ⟨more, isOff⟩
        exact above ⟨more.trans_le (min_le_left _ _), isOff⟩

theorem writeCapped_liftsCap (access : DomainAccess) (principal : Principal) (domain : Text) :
    writeCapped principal (access.heldRight principal domain) (access.liftsCap principal domain) =
      writeCapped principal (access.heldRight principal domain) (access.governs domain) := by
  cases principal with
  | unrestricted =>
      rw [held_unrestricted]
      cases access.governs domain <;> rfl
  | anonymous => rfl
  | account name role reflection => rfl

theorem writeCapped_le_read {held : DomainRight} (cap : instanceCap principal ≤ .read) :
    writeCapped principal held false ≤ .read := by
  unfold writeCapped
  rw [if_neg Bool.false_ne_true, capped_eq_min]
  exact (min_le_right _ _).trans cap

section

variable (resolved : access.principal scope = .ok principal) (stored : StoredName domain)
include resolved stored

theorem writeRight_listing :
    (access.writeRights scope).map (fun rights => rights.writeRight domain) =
      access.writeRight scope domain := by
  obtain ⟨rows, writeList, told, row, list⟩ := writeRights_of_resolved resolved
  rw [told, writeRight_of_resolved resolved stored.trim_ne]
  change Except.ok (writeCapped principal _ _) = _
  rw [decided_listing stored (row domain stored), isGoverned_listing stored, writeCapped_liftsCap,
    writeCapped_listed]
  rcases list with same | ⟨rfl, cap, ungoverned⟩
  · rw [← same domain]
    rfl
  · have short : ∀ off : Bool, ¬ (DomainRight.read < writeCapped principal
        (access.heldRight principal domain) (access.governs domain) ∧ off = true) := by
      rintro off ⟨above, -⟩
      rw [ungoverned domain stored] at above
      exact absurd above (not_lt.mpr (writeCapped_le_read cap))
    rw [if_neg (short _), if_neg (short _)]

theorem writeListExcludes_listing :
    (access.writeRights scope).map (fun rights => rights.writeListExcludes domain) =
      access.writeListExcludes scope domain := by
  obtain ⟨rows, writeList, told, row, list⟩ := writeRights_of_resolved resolved
  have shape : (access.listing principal rows writeList).writeListExcludes domain =
      if writeCapped principal (access.heldRight principal domain) (access.governs domain) < .write
        then none
      else if writeList.any (fun patterns => !writeListMatches patterns domain) then
        accountName principal
      else none := by
    unfold WriteRights.writeListExcludes
    rw [decided_listing stored (row domain stored), isGoverned_listing stored]
    change (if writeCapped principal _ _ < .write then none else _) = _
    split
    · rfl
    · cases principal with
      | unrestricted => exact (ite_self _).symm
      | anonymous => exact (ite_self _).symm
      | account name role reflection => rfl
  rw [told, writeListExcludes_of_resolved resolved stored.trim_ne, writeCapped_liftsCap]
  change Except.ok ((access.listing principal rows writeList).writeListExcludes domain) = _
  rw [shape]
  rcases list with same | ⟨rfl, cap, ungoverned⟩
  · rw [same domain]
  · have below : writeCapped principal (access.heldRight principal domain)
        (access.governs domain) < .write := by
      rw [ungoverned domain stored]
      exact lt_of_le_of_lt (writeCapped_le_read cap) (by decide)
    rw [if_pos below, if_pos below]

end

section OpenTier

variable {agent : Text} (resolved : access.principal (.agent agent) = .ok principal)
include resolved

theorem restricted_of_agent : principal ≠ .unrestricted := by
  rintro rfl
  rw [principal_agent] at resolved
  cases found : access.auth.user agent with
  | error error =>
      rw [found] at resolved
      cases resolved
  | ok held =>
      rw [found] at resolved
      have same := Except.ok.inj resolved
      cases held with
      | none => cases same
      | some user =>
          rw [liveAccount] at same
          cases disabled : user.disabled with
          | true =>
              rw [disabled] at same
              cases same
          | false =>
              rw [disabled] at same
              cases same

variable {anonymous asAgent : DomainVisibility}

/-- What the open tier hides: of the governed names what its stand-in does not
hear, of the others what an anonymous caller does not hear. -/
theorem openTierVisibility_eq {hidden agentHidden : List Text}
    (isAnonymous : access.resolveIn .anonymous access.governance = .ok anonymous)
    (isHidden : anonymous.hidden = some hidden)
    (isAgent : access.resolveIn principal access.governance = .ok asAgent)
    (agentSeen : access.Screens principal asAgent)
    (isAgentHidden : asAgent.hidden = some agentHidden) :
    access.openTierVisibility agent = .ok ⟨anonymous.isPrivate,
      some ((hidden.filter fun domain => domain ∉ access.governance.domains) ++
        (agentHidden.filter fun domain => domain ∈ access.governance.domains) ++
        if readsNoShared principal then
          access.governance.domains.filter fun domain => domain ∉ anonymous.isPrivate
        else []), false⟩ := by
  rw [openTierVisibility, isAnonymous]
  change (access.principal (.agent agent) >>= _) = _
  rw [resolved]
  change (access.resolveIn principal access.governance >>= _) = _
  rw [isAgent, ← agentSeen.sharedHidden]
  change Except.ok (DomainVisibility.mk anonymous.isPrivate
    (some (List.filter _ (anonymous.hidden.getD []) ++
      List.filter _ (asAgent.hidden.getD []) ++ _)) false) = _
  rw [isHidden, isAgentHidden]
  rfl

omit resolved in
/-- A governed name that the open tier hides as shared is below read. -/
theorem below_of_hidden_shared (seen : access.Screens .anonymous anonymous)
    (stored : StoredName domain)
    (member : domain ∈ if readsNoShared principal then
      access.governance.domains.filter fun domain => domain ∉ anonymous.isPrivate else []) :
    access.governs domain = true ∧ access.heldRight principal domain < .read := by
  split at member
  · next none =>
    obtain ⟨inside, isShared⟩ := List.mem_filter.mp member
    rw [decide_eq_true_iff, seen.isPrivate, mem_privateNames stored] at isShared
    exact ⟨(mem_domains_iff stored).mp inside,
      not_le.mp (held_shared_none (Bool.eq_false_iff.mpr isShared) none)⟩
  · cases member

/-- On the names GitHub governs the open tier hears what its stand-in hears, on
the others what an anonymous caller hears. -/
theorem openTier_admits :
    ∃ visibility, access.openTierVisibility agent = .ok visibility ∧
      ∀ domain, StoredName domain → (visibility.screen.admits domain = true ↔
        DomainRight.read ≤ access.heldRight
          (if access.governs domain then principal else .anonymous) domain) := by
  have noAccount : access.IsFolded .anonymous := fun _ _ _ same => by cases same
  have notUnrestricted : Principal.anonymous ≠ .unrestricted := fun same => by cases same
  obtain ⟨anonymous, isAnonymous, seen⟩ := resolveIn_screens notUnrestricted noAccount
  obtain ⟨asAgent, isAgent, agentSeen⟩ :=
    resolveIn_screens (restricted_of_agent resolved) (isFolded_of_resolved resolved)
  obtain ⟨hidden, isHidden, kept⟩ := seen.hidden
  obtain ⟨agentHidden, isAgentHidden, agentKept⟩ := agentSeen.hidden
  refine ⟨_, openTierVisibility_eq resolved isAnonymous isHidden isAgent agentSeen isAgentHidden,
    fun domain stored => ?_⟩
  change decide (domain ∉ _ ++ _ ++ _) = true ↔ _
  rw [decide_eq_true_iff, List.mem_append, List.mem_append, List.mem_filter, List.mem_filter,
    kept domain stored, agentKept domain stored, decide_eq_true_iff, decide_eq_true_iff,
    mem_domains_iff stored, not_or, not_or]
  cases governed : access.governs domain with
  | true =>
      rw [if_pos rfl, ← not_lt]
      constructor
      · rintro ⟨⟨-, unheard⟩, -⟩ below
        exact unheard ⟨⟨below, .inr rfl⟩, rfl⟩
      · intro reads
        exact ⟨⟨fun heard => heard.2 rfl, fun heard => reads heard.1.1⟩,
          fun member => reads (below_of_hidden_shared seen stored member).2⟩
  | false =>
      rw [if_neg Bool.false_ne_true]
      constructor
      · rintro ⟨⟨unheard, -⟩, -⟩
        cases isPrivate : (access.auth.aclOf domain).isSome with
        | true =>
            exact not_lt.mp fun below => unheard ⟨⟨below, .inl isPrivate⟩, Bool.false_ne_true⟩
        | false => exact (held_shared isPrivate governed).mpr rfl
      · intro reads
        refine ⟨⟨fun heard => absurd heard.1.1 (not_lt.mpr reads), fun heard => by cases heard.2⟩,
          fun member => ?_⟩
        have inside := (below_of_hidden_shared seen stored member).1
        rw [governed] at inside
        cases inside

end OpenTier

end DomainAccess

end Crystalline.Identity
