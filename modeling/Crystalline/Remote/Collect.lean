import Crystalline.Remote.Forge
import Crystalline.Remote.Upstream

/-!
# What a share carries

The changes detected against a base, the files read and uploaded for them, and
what an amended layer keeps of its own record.
-/

namespace Crystalline.Remote

open Programs Text

/-- Whether a record is an open layer. -/
def Proposal.isOpen (layer : Proposal) : Bool := layer.status = .opened

/-- The record of a layer that leaves the chain with a status; it carries no
push any more. -/
def Proposal.settledAs (layer : Proposal) (status : ProposalStatus) : Proposal :=
  { layer with status := status, pendingHeadCommit := none }

/-- `head_is_ours`. -/
def headIsOurs (layer : Proposal) (live : Sha) : Bool :=
  match layer.headCommit with
  | none => true
  | some recorded => recorded = live || layer.pendingHeadCommit = some live

/-- Whether a file of a record has a blob to rebuild it from; a deletion needs
none. -/
def ProposedFile.lacksBlob (file : ProposedFile) : Bool :=
  file.change ≠ .deleted && file.blobSha.isNone

/-- A layer that cannot be rebuilt from its record. -/
def Proposal.lacksBlobs (layer : Proposal) : Bool := layer.files.any ProposedFile.lacksBlob

section Errors

/-- `branch_gone`. -/
def branchGone (layer : Proposal) : RemoteError :=
  .refused s!"proposal #{layer.number}'s branch {layer.branch} is gone upstream; withdraw the proposal and share again"

/-- `unreplayable_layer`. -/
def unreplayableLayer (number : Nat) : RemoteError :=
  .refused s!"layer #{number} predates stacked shares and cannot be replayed; withdraw it or merge it first"

/-- `upper_layer_diverged`. -/
def upperLayerDiverged (layer : Proposal) : RemoteError :=
  .refused s!"proposal #{layer.number} carries commits this machine did not make, and re-basing the chain would overwrite them; pull this domain to take in what was pushed onto {layer.branch}, or let that layer's review finish before changing the chain below it"

/-- `merged_layer_blocks_repair`. -/
def mergedLayerBlocksRepair (number : Nat) : RemoteError :=
  .refused s!"proposal #{number} has merged and this domain has not pulled it in yet, so the layers around it cannot be rebuilt without losing what it brought; pull this domain first, then try again"

end Errors

section Tip

/-- What one file of a record makes of the tip. -/
def overlay (base tip : Snapshot) (file : ProposedFile) : Snapshot :=
  match file.change, file.sha256 with
  | .deleted, _ => tip.erase file.path
  | _, none => tip
  | _, some sha256 =>
      let size := (file.size.or ((base.lookup file.path).map BaseStamp.size)).getD 0
      tip.insert file.path ⟨sha256, size⟩

/-- `tip_files_over`. -/
def tipFilesOver (base : Snapshot) (layers : List Proposal) : Snapshot :=
  layers.foldl (fun tip layer => layer.files.foldl (overlay base) tip) base

section Lookup

variable {base : Snapshot} {file : ProposedFile} {path : Path}

theorem lookup_overlay_ne (tip : Snapshot) (other : path ≠ file.path) :
    (overlay base tip file).lookup path = tip.lookup path := by
  unfold overlay
  split
  · exact AList.lookup_erase_ne other
  · rfl
  · exact AList.lookup_insert_ne other

theorem lookup_overlay_recorded (base tip : Snapshot) (carried : file.change ≠ .deleted)
    {sha256 : Sha} (recorded : file.sha256 = some sha256) :
    ∃ size, (overlay base tip file).lookup file.path = some ⟨sha256, size⟩ := by
  unfold overlay
  rw [recorded]
  cases isChange : file.change with
  | deleted => exact absurd isChange carried
  | added => exact ⟨_, AList.lookup_insert tip⟩
  | modified => exact ⟨_, AList.lookup_insert tip⟩

variable {files : List ProposedFile}

theorem lookup_overlays_of_unnamed (tip : Snapshot) (unnamed : ∀ file ∈ files, path ≠ file.path) :
    (files.foldl (overlay base) tip).lookup path = tip.lookup path := by
  induction files generalizing tip with
  | nil => rfl
  | cons file files ih =>
      rw [List.foldl_cons, ih _ fun other member => unnamed other (.tail _ member)]
      exact lookup_overlay_ne tip (unnamed file (.head _))

theorem lookup_overlays_of_mem (distinct : (files.map ProposedFile.path).Nodup) (tip : Snapshot)
    (member : file ∈ files) :
    ∃ earlier, (files.foldl (overlay base) tip).lookup file.path =
      (overlay base earlier file).lookup file.path := by
  induction files generalizing tip with
  | nil => cases member
  | cons first files ih =>
      rw [List.map_cons, List.nodup_cons] at distinct
      rcases List.mem_cons.mp member with rfl | later
      · refine ⟨tip, ?_⟩
        rw [List.foldl_cons]
        refine lookup_overlays_of_unnamed _ fun other otherMember same => distinct.1 ?_
        rw [same]
        exact List.mem_map_of_mem otherMember
      · exact ih distinct.2 _ later

end Lookup

end Tip

/-- `first_misaligned_layer`, from the record at an index and the open layer
below it. -/
def misalignedFrom (index : Nat) (below : Option Proposal) : List Proposal → Option (Nat × Sha)
  | [] => none
  | layer :: layers =>
      if layer.isOpen then
        match below.bind Proposal.headCommit with
        | some parent =>
            if layer.baseCommit ≠ some parent then some (index, parent)
            else misalignedFrom (index + 1) (some layer) layers
        | none => misalignedFrom (index + 1) (some layer) layers
      else misalignedFrom (index + 1) below layers

/-- An open layer whose recorded base is not the head of the one below. -/
def anyMisaligned (layers : List Proposal) : Bool :=
  (layers.zip layers.tail).any fun pair => pair.2.baseCommit ≠ pair.1.headCommit

/-- The records below the topmost open layer. -/
def underTop (layers : List Proposal) : List Proposal :=
  (layers.reverse.dropWhile fun layer => !layer.isOpen).tail.reverse

namespace OriginState

variable (state : OriginState)

/-- A state with one of its records changed. -/
def setLayer (index : Nat) (change : Proposal → Proposal) : OriginState :=
  { state with proposals := state.proposals.modify index change }

/-- `effective_tip_files`. -/
def effectiveTipFiles : Snapshot := tipFilesOver state.files state.openLayers

/-- The open layers below an index. -/
def openBelow (index : Nat) : List Proposal := (state.proposals.take index).filter Proposal.isOpen

/-- The open layers from an index up. -/
def openFrom (index : Nat) : List Proposal := (state.proposals.drop index).filter Proposal.isOpen

/-- `tip_below_layer`. -/
def tipBelowLayer (index : Nat) : Snapshot := tipFilesOver state.files (state.openBelow index)

/-- `under_an_open_layer`. -/
def underAnOpenLayer : List Proposal := underTop state.proposals

/-- `merged_layer_blocking_repair`. -/
def mergedLayerBlockingRepair : Option Nat :=
  (state.underAnOpenLayer.find? fun layer => layer.status = .merged).map Proposal.number

/-- `first_misaligned_layer`. -/
def firstMisalignedLayer : Option (Nat × Sha) := misalignedFrom 0 none state.proposals

/-- A record that is no open layer below the bottom one. -/
def holeBelow (bottom : Proposal) : Bool :=
  (state.proposals.takeWhile fun layer => layer.number ≠ bottom.number).any
    fun layer => !layer.isOpen

/-- `stack_shape_broken`. -/
def stackShapeBroken : Bool :=
  if state.stackNumber.isNone then false
  else if state.mergedLayerBlockingRepair.isSome then false
  else
    match state.openLayers with
    | [] => true
    | [_] => true
    | bottom :: layers =>
        (state.holeBelow bottom && bottom.baseCommit ≠ some state.baseCommit) ||
          anyMisaligned (bottom :: layers)

/-- `ensure_replayable`. -/
def ensureReplayable (index : Nat) : Except RemoteError Unit :=
  match (state.openFrom index).find? Proposal.lacksBlobs with
  | some layer => .error (unreplayableLayer layer.number)
  | none => .ok ()

/-- `open_position`. -/
def openPosition (number : Nat) : Nat × Nat :=
  let opened := state.openLayers.map Proposal.number
  (((opened.idxOf? number).map Nat.succ).getD opened.length, opened.length)

/-- `merged_into`: the branch of the nearest open layer below a record. -/
def mergedInto (number : Nat) : String :=
  ((state.proposals.findIdx? fun layer => layer.number = number).bind fun index =>
    (state.openBelow index).getLast?.map Proposal.branch).getD state.branch

/-- `queue_retired`: a branch already queued keeps its entry. -/
def queueRetired (layer : Proposal) (why : RetireWhy) (onto : String) : OriginState :=
  if state.retireQueue.any fun entry => entry.branch = layer.branch then state
  else
    { state with retireQueue := state.retireQueue ++
        [⟨layer.number, layer.branch, onto, why, none⟩] }

end OriginState

/-- `to_platform_path`, as far as it refuses. -/
def isPlatformPath (rel : Path) : Bool :=
  rel ≠ [] && !startsWith rel ['/'] &&
    ((components rel).filter (· ≠ [])).all (fun part =>
      part ≠ ".".toList && part ≠ "..".toList && !(':' ∈ part) && !('\\' ∈ part)) &&
    (components rel).any (· ≠ [])

def outsideTheDomain (rel : Path) : RemoteError :=
  .state s!"rejected path outside the domain tree: {String.ofList rel}"

/-- `read_optional_file` of a `checked_working_path`. -/
def readOptionalFile (tree : Tree) (rel : Path) : Except RemoteError (Option Bytes) :=
  if !isPlatformPath rel then .error (outsideTheDomain rel)
  else
    match tree.lookup rel, Detector.presence tree rel with
    | some content, _ => .ok (some content)
    | none, .notFound => .ok none
    | none, .there => .error (.workingTree rel "Is a directory")
    | none, .notADirectory => .error (.workingTree rel "Not a directory")

/-- `read_working_file` of a `checked_working_path`. -/
def readWorkingFile (tree : Tree) (rel : Path) : Except RemoteError Bytes := do
  match ← readOptionalFile tree rel with
  | some content => return content
  | none => .error (.workingTree rel "No such file or directory")

/-- `read_base_file`. -/
def readBaseFile (copies : Tree) (rel : Path) : Except RemoteError (Option Bytes) :=
  if isPlatformPath rel then .ok (copies.lookup rel) else .error (outsideTheDomain rel)

theorem lookup_of_readOptionalFile {tree : Tree} {rel : Path} {held : Option Bytes}
    (read : readOptionalFile tree rel = .ok held) : tree.lookup rel = held := by
  unfold readOptionalFile at read
  split at read
  · cases read
  · cases found : tree.lookup rel with
    | some content =>
        rw [found] at read
        exact Except.ok.inj read
    | none =>
        rw [found] at read
        cases presence : Detector.presence tree rel with
        | notFound =>
            rw [presence] at read
            exact Except.ok.inj read
        | there =>
            rw [presence] at read
            cases read
        | notADirectory =>
            rw [presence] at read
            cases read

/-- `CollectedChanges`, without the contents a generated body reads. -/
structure CollectedChanges where
  writes : List TreeWrite
  files : List ProposedFile
  added : List Path
  updated : List Path
  deleted : List Path
  deriving DecidableEq, Repr

def CollectedChanges.empty : CollectedChanges := ⟨[], [], [], [], []⟩

section Selection

/-- `folder_of`. -/
def folderOf (path : Path) : Path := ['/'].intercalate (components path).dropLast

/-- `normalize_selected_path`. -/
def normalizeSelectedPath (raw : Text) : Path :=
  let trimmed := withSlashes (trim raw)
  (stripPrefix "./".toList trimmed).getD trimmed

/-- The spellings that select a change, with the path it is reported at. -/
def detectedSpellings (local_ : LocalChanges) : AList fun _ : Path => Path :=
  local_.diskPaths.foldl (fun detected pair =>
      if (detected.lookup pair.1).isSome then detected.insert pair.2 pair.1 else detected)
    (local_.changes.foldl (fun detected change => detected.insert change.path change.path) ∅)

def unknownSelection (unknown : List Path) : RemoteError :=
  let named := ", ".intercalate (unknown.map String.ofList)
  .refused s!"not among this domain's unshared changes: {named}; take the paths from the share preview, which lists every file a share would carry, or leave the file list out to share everything"

/-- `select_share_files`: the listing of a folder rides along with its files. -/
def selectShareFiles (local_ : LocalChanges) :
    Option (List Text) → Except RemoteError LocalChanges
  | none => .ok local_
  | some files =>
      let detected := detectedSpellings local_
      let named := files.map normalizeSelectedPath
      let unknown := (named.filter fun path => (detected.lookup path).isNone).eraseDups
      if unknown ≠ [] then .error (unknownSelection unknown)
      else
        let chosen := named.filterMap fun path => detected.lookup path
        let folders := (chosen.filter fun path => !isIndexPath path).map folderOf
        .ok { local_ with
          changes := local_.changes.filter fun change =>
            chosen.contains change.path ||
              (isIndexPath change.path && folders.contains (folderOf change.path)) }

end Selection

/-- A share: the domain as it stands on this machine, and what the caller asks.
The body is what the caller's description and note, or else the changes, read
as; the branch name is drawn from the clock. -/
structure Share where
  spec : OriginSpec
  domainName : String
  detector : Detector
  tree : Tree
  copies : Tree
  title : Option String
  described : Bool
  body : CollectedChanges → String
  proposal : Option Nat
  stacksAllowed : Bool
  files : Option (List Text)
  authorLogin : Option String
  branchName : String

/-- The LF digests that describe the stamps of a base. -/
def trustedDigests (state : OriginState) (base : Snapshot) : AList fun _ : Path => Sha :=
  (state.lfDigests.entries.filter fun entry =>
    (base.lookup entry.1).isSome && base.lookup entry.1 = state.files.lookup entry.1).toAList

section Titles

/-- `pluralize`. -/
def pluralize (count : Nat) (singular plural : String) : String :=
  if count = 1 then singular else plural

/-- How many additions, updates, deletions and generated indexes a share has. -/
structure ChangeCounts where
  added : Nat
  updated : Nat
  deleted : Nat
  indexes : Nat

/-- `generate_title`. -/
def generateTitle (counts : ChangeCounts) (domainName : String) : String :=
  match decide (0 < counts.added), decide (0 < counts.updated), decide (0 < counts.deleted) with
  | true, false, false =>
      let engrams := pluralize counts.added "engram" "engrams"
      s!"Share {counts.added} new {engrams} from {domainName}"
  | false, true, false =>
      let engrams := pluralize counts.updated "engram" "engrams"
      s!"Refine {counts.updated} {engrams} in {domainName}"
  | false, false, false =>
      if 0 < counts.indexes then
        let indexes := pluralize counts.indexes "index" "indexes"
        s!"Refresh {counts.indexes} folder {indexes} in {domainName}"
      else s!"Share updates from {domainName}"
  | _, _, _ => s!"Share updates from {domainName}"

/-- `count_collected`. -/
def CollectedChanges.counts (collected : CollectedChanges) : ChangeCounts :=
  let work := List.countP fun path : Path => !isIndexPath path
  let indexes := List.countP isIndexPath
  { added := work collected.added
    updated := work collected.updated
    deleted := work collected.deleted
    indexes := indexes collected.added + indexes collected.updated + indexes collected.deleted }

end Titles

namespace Share

variable (share : Share)

/-- `detect_local_changes_against` a base. -/
def detect (state : OriginState) (base : Snapshot) : Except RemoteError LocalChanges :=
  Detector.detectLocalChangesWith
    { share.detector with
      baseCopies := some share.copies
      lfDigests := some (trustedDigests state base) }
    share.tree base

/-- The changes a share carries over a base. -/
def selected (state : OriginState) (base : Snapshot) : Except RemoteError LocalChanges := do
  selectShareFiles (← share.detect state base) share.files

/-- The title of a share's commit. -/
def effectiveTitle (collected : CollectedChanges) : String :=
  share.title.getD (generateTitle collected.counts share.domainName)

/-- One addition or update a share carries, its blob uploaded. -/
def collectContent (change : ProposedChange) (path : Path) (sha256 : Sha)
    (local_ : LocalChanges) : Operation (TreeWrite × ProposedFile) := do
  let content ← Program.orStop (readWorkingFile share.tree (local_.diskPath path))
  let blobSha ← perform (.createBlob content)
  return (⟨toRepoRelative path share.spec.subpath, some blobSha⟩,
    ⟨path, change, some sha256, some blobSha, some content.length⟩)

/-- One turn of `collect_changes`. -/
def collectChange (local_ : LocalChanges) (out : CollectedChanges) :
    LocalChange → Operation CollectedChanges
  | .added path sha256 => do
      let (write, file) ← share.collectContent .added path sha256 local_
      return { out with
        writes := out.writes ++ [write]
        files := out.files ++ [file]
        added := out.added ++ [path] }
  | .modified path sha256 => do
      let (write, file) ← share.collectContent .modified path sha256 local_
      return { out with
        writes := out.writes ++ [write]
        files := out.files ++ [file]
        updated := out.updated ++ [path] }
  | .deleted path => do
      -- The last known content is read for a generated body only.
      if !share.described then
        let _ ← Program.orStop (readBaseFile share.copies path)
      return { out with
        writes := out.writes ++ [⟨toRepoRelative path share.spec.subpath, none⟩]
        files := out.files ++ [⟨path, .deleted, none, none, none⟩]
        deleted := out.deleted ++ [path] }

/-- `collect_changes`. -/
def collectChanges (local_ : LocalChanges) : Operation CollectedChanges :=
  Program.forEach (share.collectChange local_) .empty local_.changes

section Amend

variable (layer : Proposal) (below : Snapshot) (ownedAbove : List Path) (fresh : LocalChanges)

def contentMoved (layer : Proposal) (path : Path) : RemoteError :=
  .refused s!"layer #{layer.number} records {String.ofList path} at content the working tree no longer holds; share that change or withdraw the layer"

/-- The files an amended layer proposes, by path. -/
abbrev MergedFiles := AList fun _ : Path => ProposedFile

/-- What an amended layer keeps of a recorded file, with the content of one
recorded without a blob. -/
def keepEntry (file : ProposedFile) : Except RemoteError (Option (ProposedFile × Option Bytes)) :=
  if (fresh.changes.map LocalChange.path).contains file.path then .ok none
  else if file.change = .deleted ∧ (below.lookup file.path).isNone then .ok none
  else if file.lacksBlob then
    if ownedAbove.contains file.path then .error (unreplayableLayer layer.number)
    else
      match file.sha256 with
      | none => .error (unreplayableLayer layer.number)
      | some recorded => do
          match ← readOptionalFile share.tree (fresh.diskPath file.path) with
          | none => .error (unreplayableLayer layer.number)
          | some content =>
              if share.detector.sha256Hex content ≠ recorded then
                .error (contentMoved layer file.path)
              else return some (file, some content)
  else .ok (some (file, none))

/-- A kept file's blob, uploaded again. -/
def rebuildEntry (merged : MergedFiles) (kept : ProposedFile × Option Bytes) :
    Operation MergedFiles :=
  match kept.2 with
  | none => pure merged
  | some content => do
      let blobSha ← perform (.createBlob content)
      return match merged.lookup kept.1.path with
        | some file => merged.insert kept.1.path
            { file with blobSha := some blobSha, size := some content.length }
        | none => merged

/-- What a fresh change makes of the files of the layer. -/
def mergeFresh (merged : MergedFiles) : LocalChange → Operation MergedFiles
  | .added path sha256 | .modified path sha256 =>
      let beneath := below.lookup path
      -- The tip below already carries exactly this content.
      if beneath.map BaseStamp.sha256 = some sha256 then pure (merged.erase path)
      else do
        let change := if beneath.isSome then .modified else .added
        let (_, file) ← share.collectContent change path sha256 fresh
        return merged.insert path file
  | .deleted path =>
      if (below.lookup path).isNone then pure (merged.erase path)
      else pure (merged.insert path ⟨path, .deleted, none, none, none⟩)

/-- What a file of the layer adds to its commit. -/
def collectMerged (out : CollectedChanges) (file : ProposedFile) :
    Except RemoteError CollectedChanges :=
  let repoPath := toRepoRelative file.path share.spec.subpath
  match file.change with
  | .added | .modified =>
      match file.blobSha with
      | none => .error (unreplayableLayer layer.number)
      | some blobSha => do
          if !share.described then
            let _ ← readOptionalFile share.tree (fresh.diskPath file.path)
          return { out with
            writes := out.writes ++ [⟨repoPath, some blobSha⟩]
            files := out.files ++ [file]
            added := if file.change = .added then out.added ++ [file.path] else out.added
            updated := if file.change = .added then out.updated else out.updated ++ [file.path] }
  | .deleted => do
      if !share.described then
        let _ ← readBaseFile share.copies file.path
      return { out with
        writes := out.writes ++ [⟨repoPath, none⟩]
        files := out.files ++ [file]
        deleted := out.deleted ++ [file.path] }

/-- The files of a layer in the order of their paths. -/
def inOrder (merged : MergedFiles) : List ProposedFile :=
  (merged.entries.map Sigma.snd).insertionSort fun left right => ¬ right.path < left.path

/-- `collect_amend_changes`. -/
def collectAmendChanges : Operation CollectedChanges := do
  let kept ← Program.orStop (layer.files.mapM (share.keepEntry layer below ownedAbove fresh))
  let kept := kept.reduceOption
  let merged := kept.foldl (fun merged file => merged.insert file.1.path file.1) ∅
  let merged ← Program.forEach rebuildEntry merged kept
  let merged ← Program.forEach (share.mergeFresh below fresh) merged fresh.changes
  Program.orStop ((inOrder merged).foldlM (share.collectMerged layer fresh) .empty)

end Amend

end Share

end Crystalline.Remote
