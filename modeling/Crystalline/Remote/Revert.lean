import Crystalline.Remote.Collect

/-!
# Reverting a withdrawn layer

A withdrawal that reverts puts back each file the proposal recorded and that
still holds what was proposed: from the copy of the base, or, where the base
has none, from the blob the nearest layer below recorded.
-/

namespace Crystalline.Remote

open Programs Text

/-- `resolve_local_change`: either spelling selects a change, a generated
listing is never selected. -/
def resolveLocalChange (local_ : LocalChanges) (raw : Text) : Option LocalChange :=
  let wanted := normalizeSelectedPath raw
  if isIndexPath wanted then none
  else (local_.changes.filter fun change => !change.isGeneratedIndex).find? fun change =>
    change.path = wanted || local_.diskPath change.path = wanted

/-- One path to put back, with the digest of the current side the caller looked
at. -/
structure DiscardTarget where
  path : Text
  sha256 : Option Sha
  deriving DecidableEq, Repr

inductive DiscardRefusal where
  | changedSince
  | notAChange
  | noBaseCopy
  | unknownPath
  deriving DecidableEq, Repr

structure DiscardReport where
  restored : List Path
  deleted : List Path
  refused : List (Path × DiscardRefusal)
  deriving DecidableEq, Repr

namespace DiscardReport

def empty : DiscardReport := ⟨[], [], []⟩

def restore (report : DiscardReport) (path : Path) : DiscardReport :=
  { report with restored := report.restored ++ [path] }

def delete (report : DiscardReport) (path : Path) : DiscardReport :=
  { report with deleted := report.deleted ++ [path] }

def refuse (report : DiscardReport) (path : Path) (why : DiscardRefusal) : DiscardReport :=
  { report with refused := report.refused ++ [(path, why)] }

end DiscardReport

/-- `checked_working_path`. -/
def checkedWorkingPath (rel : Path) : Except RemoteError Path :=
  if isPlatformPath rel then .ok rel else .error (outsideTheDomain rel)

/-- Whether the current side is no longer the one the caller looked at. -/
def LocalChange.diverged (sha256Hex : Bytes → Sha) (looked : Option Sha)
    (current : Option Bytes) : LocalChange → Bool
  | added _ _ | modified _ _ => current.map sha256Hex ≠ looked
  | deleted _ => current.isSome || looked.isSome

/-- A discard: the base with its copies, and the changes over it. -/
structure Discard where
  sha256Hex : Bytes → Sha
  base : Snapshot
  copies : Tree
  changes : LocalChanges

namespace Discard

variable (discard : Discard)

/-- Why a path names no change. -/
def unresolved (raw : Text) : DiscardRefusal :=
  let normalized := normalizeSelectedPath raw
  if !isIndexPath normalized && (discard.base.lookup normalized).isSome then .notAChange
  else .unknownPath

/-- Put a change back the way the base has it. -/
def putBack (tree : Tree) (report : DiscardReport) :
    LocalChange → Operation (Tree × DiscardReport)
  | .added path _ => do
      perform (.removeFile (discard.changes.diskPath path))
      return (tree.erase (discard.changes.diskPath path), report.delete path)
  | .modified path _ | .deleted path => do
      match ← Program.orStop (readBaseFile discard.copies path) with
      | some bytes => do
          perform (.writeFile (discard.changes.diskPath path) bytes)
          return (tree.insert (discard.changes.diskPath path) bytes, report.restore path)
      | none => return (tree, report.refuse path .noBaseCopy)

/-- One turn of the loop of `discard_local_files`. -/
def discardTarget (state : Tree × DiscardReport) (target : DiscardTarget) :
    Operation (Tree × DiscardReport) :=
  match resolveLocalChange discard.changes target.path with
  | none => pure (state.1, state.2.refuse target.path (discard.unresolved target.path))
  | some change => do
      let current ← Program.orStop
        (readOptionalFile state.1 (discard.changes.diskPath change.path))
      if change.diverged discard.sha256Hex target.sha256 current then
        return (state.1, state.2.refuse change.path .changedSince)
      else discard.putBack state.1 state.2 change

/-- `discard_local_files`. -/
def discardLocalFiles (tree : Tree) (targets : List DiscardTarget) :
    Operation (Tree × DiscardReport) :=
  Program.forEach discard.discardTarget (tree, .empty) targets

end Discard

/-- What the nearest of some layers, the upper ones first, carries at a path:
its blob, if it still hashes to the recorded digest. -/
def contentOfNearest (sha256Hex : Bytes → Sha) (path : Path) :
    List Proposal → Operation (Option Bytes)
  | [] => pure none
  | layer :: layers =>
      match layer.files.find? fun file => file.path = path with
      | none => contentOfNearest sha256Hex path layers
      | some file =>
          match file.change, file.blobSha, file.sha256 with
          | .deleted, _, _ => pure none
          | _, some blobSha, some recorded => do
              match ← attempt (.blob blobSha) with
              | .ok bytes => return if sha256Hex bytes = recorded then some bytes else none
              | .error _ => return none
          | _, _, _ => pure none

/-- `layer_below_content`. -/
def layerBelowContent (sha256Hex : Bytes → Sha) (below : List Proposal) (path : Path) :
    Operation (Option Bytes) :=
  contentOfNearest sha256Hex path below.reverse

/-- What a `WithdrawReport` says of the files. -/
structure WithdrawReport where
  restored : List Path
  deleted : List Path
  skippedDiverged : List Path
  skippedReverts : List Path
  skippedReflection : List Path
  deriving DecidableEq, Repr

namespace WithdrawReport

def empty : WithdrawReport := ⟨[], [], [], [], []⟩

/-- The paths of all lists. -/
def named (report : WithdrawReport) : List Path :=
  report.restored ++ report.deleted ++ report.skippedDiverged ++ report.skippedReverts ++
    report.skippedReflection

end WithdrawReport

/-- A withdrawal that reverts: the rules of the domain, the trunk's manifest
with its copies, the withdrawn proposal and the open layers below it. -/
structure Revert where
  detector : Detector
  trunk : Snapshot
  copies : Tree
  proposal : Proposal
  below : List Proposal

namespace Revert

variable (revert : Revert)

/-- The base of a revert. -/
def tip : Snapshot := tipFilesOver revert.trunk revert.below

/-- The detection of a revert, which compares bytes alone. -/
def comparing : Detector := { revert.detector with baseCopies := none, lfDigests := none }

/-- One refused path: where the trunk has no copy, a layer below may have. -/
def revertRefused (local_ : LocalChanges) (state : Tree × WithdrawReport)
    (refused : Path × DiscardRefusal) : Operation (Tree × WithdrawReport) :=
  let (tree, report) := state
  let (path, why) := refused
  match why with
  | .changedSince =>
      pure (tree, { report with skippedDiverged := report.skippedDiverged ++ [path] })
  | .noBaseCopy => do
      let disk ← Program.orStop (checkedWorkingPath (local_.diskPath path))
      match ← layerBelowContent revert.detector.sha256Hex revert.below path with
      | some bytes => do
          perform (.writeFile disk bytes)
          return (tree.insert disk bytes, { report with restored := report.restored ++ [path] })
      | none =>
          return (tree, { report with skippedReverts := report.skippedReverts ++ [path] })
  | .notAChange | .unknownPath =>
      if revert.detector.policy.reflection = .effective && isUnderReflections path then
        pure (tree, { report with skippedReflection := report.skippedReflection ++ [path] })
      else pure (tree, { report with skippedDiverged := report.skippedDiverged ++ [path] })

/-- What a revert discards over the changes it detected. -/
def discard (local_ : LocalChanges) : Discard :=
  ⟨revert.detector.sha256Hex, revert.tip, revert.copies, local_⟩

/-- The paths the withdrawn proposal recorded, as they were shared. -/
def targets : List DiscardTarget :=
  revert.proposal.files.map fun file => ⟨file.path, file.sha256⟩

/-- `revert_layer_files`, over a working tree and with the tree it leaves. -/
def revertLayerFiles (tree : Tree) (report : WithdrawReport) :
    Operation (Tree × WithdrawReport) := do
  let local_ ← Program.orStop (revert.comparing.detectLocalChangesWith tree revert.tip)
  let (tree, discarded) ← (revert.discard local_).discardLocalFiles tree revert.targets
  let report := { report with
    restored := report.restored ++ discarded.restored
    deleted := report.deleted ++ discarded.deleted }
  Program.forEach (revert.revertRefused local_) (tree, report) discarded.refused

end Revert

end Crystalline.Remote
