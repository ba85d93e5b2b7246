import Mathlib.Data.List.AList
import Crystalline.Text.Basic

/-!
# The records of a domain's origin

What `state.json` keeps of an origin: the base snapshot, the share proposals
from the bottom layer up, the conflicts and the branches waiting to be
deleted.  Times, web texts no rule reads and review feedback are left out.

The texts of the errors are the ones a person reads; the text of a working tree
failure is the operating system's and stands here as it was given.
-/

namespace Crystalline.Remote

/-- A domain-relative path with forward slashes. -/
abbrev Path := Text

/-- A commit, tree or blob name of the forge, or a content digest. -/
abbrev Sha := String

/-- The recorded state of one base file. -/
structure BaseStamp where
  sha256 : Sha
  size : Nat
  deriving DecidableEq, Repr

/-- `BTreeMap<String, BaseStamp>`. -/
abbrev Snapshot := AList fun _ : Path => BaseStamp

inductive ProposalStatus where
  | opened
  | merged
  | declined
  | withdrawn
  deriving DecidableEq, Repr

inductive ProposedChange where
  | added
  | modified
  | deleted
  deriving DecidableEq, Repr

/-- One file a proposal carries. -/
structure ProposedFile where
  path : Path
  change : ProposedChange
  sha256 : Option Sha
  blobSha : Option Sha
  size : Option Nat
  deriving DecidableEq, Repr

/-- A share proposal: one layer of the chain. -/
structure Proposal where
  number : Nat
  url : String
  branch : String
  title : String
  status : ProposalStatus
  files : List ProposedFile
  headCommit : Option Sha
  pendingHeadCommit : Option Sha
  baseCommit : Option Sha
  authorLogin : Option String
  deriving DecidableEq, Repr

inductive ConflictKind where
  | editEdit
  | editDelete
  | deleteEdit
  | addAdd
  deriving DecidableEq, Repr

structure Conflict where
  id : Nat
  path : Path
  kind : ConflictKind
  baseCommit : Sha
  upstreamCommit : Sha
  deriving DecidableEq, Repr

/-- Why a branch waits to be deleted. -/
inductive RetireWhy where
  | declined
  | withdrawn
  | merged
  deriving DecidableEq, Repr

/-- What kept a branch. -/
inductive KeptKind where
  | head
  | targetGone
  | deleteRefused
  | awaited
  | base
  deriving DecidableEq, Repr

structure BranchKept where
  blockedBy : Option Nat
  reason : String
  kind : KeptKind
  deriving DecidableEq, Repr

/-- A share branch waiting to be deleted, and where the pull requests based on
it belong. -/
structure QueuedBranch where
  number : Nat
  branch : String
  onto : String
  why : RetireWhy
  kept : Option BranchKept
  deriving DecidableEq, Repr

/-- `QueuedBranch::kept_kind`. -/
def QueuedBranch.keptKind (entry : QueuedBranch) : Option KeptKind :=
  entry.kept.map BranchKept.kind

structure OriginState where
  branch : String
  baseCommit : Sha
  refEtag : Option String
  files : Snapshot
  lfDigests : AList fun _ : Path => Sha
  /-- The chain, bottom layer first. -/
  proposals : List Proposal
  /-- The settled proposals, newest first. -/
  history : List Proposal
  conflicts : List Conflict
  stackNumber : Option Nat
  stacksAvailable : Option Bool
  repairPending : Bool
  stackLinkPending : Bool
  retireQueue : List QueuedBranch

/-- `OriginState::new`: a domain that has not pulled yet. -/
def OriginState.new (branch : String) : OriginState where
  branch := branch
  baseCommit := ""
  refEtag := none
  files := ∅
  lfDigests := ∅
  proposals := []
  history := []
  conflicts := []
  stackNumber := none
  stacksAvailable := none
  repairPending := false
  stackLinkPending := false
  retireQueue := []

/-- `HISTORY_CAP`. -/
def historyCap : Nat := 20

/-- `OriginState::push_history`. -/
def OriginState.pushHistory (state : OriginState) (proposal : Proposal) : OriginState :=
  { state with history := (proposal :: state.history).take historyCap }

/-- The open layers, bottom first. -/
def OriginState.openLayers (state : OriginState) : List Proposal :=
  state.proposals.filter fun layer => layer.status = .opened

/-- The repository, the folder in it and the branch a domain tracks. -/
structure OriginSpec where
  repo : String
  subpath : Option Text
  branch : String
  deriving DecidableEq, Repr

/-- `RemoteError`, the variants the operations build or look into; the others
carry the text they show. -/
inductive RemoteError where
  | offline
  | rateLimited
  | authExpired
  | notConnected
  | authPending
  | api (status : Nat) (message : String)
  | repoNotFound (repo : String)
  | stacksUnsupported
  | refused (message : String)
  | conflictsPending (count : Nat)
  | proposalNotFound (number : Nat)
  | noWithdrawTarget (opened declined : List Nat)
  | state (message : String)
  | workingTree (path : Path) (reason : String)
  | other (message : String)
  deriving DecidableEq, Repr

/-- `join_numbers`. -/
def joinNumbers (numbers : List Nat) : String :=
  if numbers.isEmpty then "none"
  else ", ".intercalate (numbers.map fun number => s!"#{number}")

/-- `conflicts_pending_clause`. -/
def conflictsPendingClause (count : Nat) : String :=
  if count = 1 then "1 conflict needs to be settled"
  else s!"{count} conflicts need to be settled"

/-- The text an error shows. -/
def RemoteError.text : RemoteError → String
  | offline => "Could not reach GitHub - you appear to be offline. Everything local keeps working; sharing and updating will succeed once you are back online."
  | rateLimited => "GitHub is rate limiting this machine; trying again later. Nothing is lost."
  | authExpired => "The GitHub connection has expired or was revoked. Use configure to sign in again."
  | notConnected => "Not connected to GitHub yet. Use configure to connect - you will get a short code to confirm at github.com/login/device."
  | authPending => "Sign-in is waiting for confirmation: enter the code at github.com/login/device, then check again."
  | api status message =>
      s!"GitHub returned an unexpected answer (status {status}): {message}"
  | repoNotFound repo =>
      s!"Could not find the GitHub repository {repo}. If it exists, a team admin may need to grant access."
  | stacksUnsupported => "This forge does not serve stacked pull requests; shares use a single living proposal instead."
  | refused message => message
  | conflictsPending count =>
      s!"{conflictsPendingClause count} before sharing; use resolve_conflict, then try again."
  | proposalNotFound number =>
      s!"no open or declined proposal #{number} found for this domain"
  | noWithdrawTarget opened declined =>
      s!"no single proposal to withdraw; pass a proposal number. Open: {joinNumbers opened}; declined: {joinNumbers declined}"
  | state message => s!"the origin state is corrupt: {message}"
  | workingTree path reason => s!"{String.ofList path}: {reason}"
  | other message => message

/-- `RemoteError::is_temporary`. -/
def RemoteError.isTemporary : RemoteError → Bool
  | offline | rateLimited | authExpired | notConnected | authPending => true
  | api status _ => 500 ≤ status || status = 429
  | _ => false

end Crystalline.Remote
