import Crystalline.Remote.Pull

/-!
# The two ways of reading upstream

A compare lists what changed between two commits, and the content of each
changed file is fetched; a tarball holds the whole head, and is set against the
base manifest.
-/

namespace Crystalline.Remote

open Text

/-- `MAX_COMPARE_FILES`. -/
def maxCompareFiles : Nat := 50

/-- What a domain in this folder starts its repository paths with. -/
def domainPrefix (sub : Text) : Text :=
  trimStartMatches (· == '/') (trimEndMatches (· == '/') sub) ++ ['/']

/-- A repository path without the folder of the domain. -/
def underDomain (sub : Option Text) (path : Text) : Option Path :=
  match sub with
  | none => some path
  | some sub => stripPrefix (domainPrefix sub) path

/-- `to_domain_relative`. -/
def toDomainRelative (path : Text) (sub : Option Text) : Option Path :=
  (underDomain sub path).filter fun rel => !isExcludedPath rel

/-- `to_repo_relative`. -/
def toRepoRelative (rel : Path) (sub : Option Text) : Text :=
  match sub with
  | none => rel
  | some sub => domainPrefix sub ++ rel

inductive ChangeKind where
  | added
  | modified
  | removed
  | renamed (previous : Text)
  deriving DecidableEq, Repr

structure UpstreamChange where
  path : Text
  kind : ChangeKind
  blobSha : Option Sha
  deriving DecidableEq, Repr

structure CompareResult where
  files : List UpstreamChange
  truncated : Bool
  deriving DecidableEq, Repr

/-- An entry of a tarball, its path below the archive's one top directory. -/
structure TarEntry where
  path : Text
  isFile : Bool
  content : Bytes

/-- A file map and the files left out of it for their size. -/
abbrev ExtractedFiles := Tree × List (Path × Nat)

/-- `replace('\\', "/")`. -/
def withSlashes (path : Text) : Text := path.map fun char => if char = '\\' then '/' else char

/-- Whether a component leaves the archive's root, or could be read as a drive. -/
def isEscape (component : Text) : Bool := component = "..".toList || ':' ∈ component

def escapesRoot (path : Text) : RemoteError :=
  .state s!"tarball entry escapes its root: {String.ofList path}"

/-- One turn of `extract_tarball`. -/
def extractEntry (sub : Option Text) (found : ExtractedFiles) (entry : TarEntry) :
    Except RemoteError ExtractedFiles :=
  if !entry.isFile then .ok found
  else
    let path := withSlashes entry.path
    if (components path).any isEscape then .error (escapesRoot path)
    else
      match (splitOnce ['/'] path).bind fun parts => underDomain sub parts.2 with
      | none => .ok found
      | some rel =>
          if rel = [] || isExcludedPath rel then .ok found
          else if maxSharedFileBytes < entry.content.length then
            .ok (found.1, found.2 ++ [(rel, entry.content.length)])
          else .ok (found.1.insert rel entry.content, found.2)

/-- `extract_tarball`. -/
def extractTarball (entries : List TarEntry) (sub : Option Text) :
    Except RemoteError ExtractedFiles :=
  entries.foldlM (extractEntry sub) (∅, [])

/-- What the forge serves of a head: its blobs and its tarball. -/
structure UpstreamForge where
  blob : Sha → Except RemoteError Bytes
  tarball : Except RemoteError (List TarEntry)

abbrev UpstreamEdits := List UpstreamEdit × List (Path × Nat)

section

variable (sha256Hex : Bytes → Sha) (forge : UpstreamForge) (sub : Option Text)
  (files : Snapshot)

/-- The extracted files the manifest does not list with this content. -/
def changedFiles (extracted : Tree) : List UpstreamEdit :=
  extracted.entries.filterMap fun file =>
    match files.lookup file.1 with
    | none => some ⟨file.1, some file.2⟩
    | some base =>
        if sha256Hex file.2 ≠ base.sha256 then some ⟨file.1, some file.2⟩ else none

/-- The manifest's files that were neither extracted nor left out. -/
def goneFiles (found : ExtractedFiles) : List UpstreamEdit :=
  files.keys.filterMap fun rel =>
    if (found.1.lookup rel).isNone && !(found.2.map Prod.fst).contains rel
    then some ⟨rel, none⟩ else none

/-- `upstream_edits_from_tarball`; the edits come in another order than the
sorted maps give them. -/
def upstreamEditsFromTarball : Except RemoteError UpstreamEdits := do
  let entries ← forge.tarball
  let found ← extractTarball entries sub
  return (changedFiles sha256Hex files found.1 ++ goneFiles files found, found.2)

def withoutBlob (rel : Path) : RemoteError :=
  .api 0 s!"the origin reported a change to {String.ofList rel} without a blob to fetch"

/-- `push_blob_edit`: what one changed file adds to the edits and to the files
too large. -/
def pushBlobEdit (blobSha : Option Sha) (rel : Path) : Except RemoteError UpstreamEdits :=
  match blobSha with
  | none => .error (withoutBlob rel)
  | some sha => do
      let content ← forge.blob sha
      if maxSharedFileBytes < content.length then return ([], [(rel, content.length)])
      else return ([⟨rel, some content⟩], [])

/-- The new side of a change, where it belongs to the domain. -/
def newSide (change : UpstreamChange) : Except RemoteError UpstreamEdits :=
  match toDomainRelative change.path sub with
  | some rel => pushBlobEdit forge change.blobSha rel
  | none => .ok ([], [])

/-- The removal of a path, where it belongs to the domain. -/
def oldSide (path : Text) : List UpstreamEdit :=
  match toDomainRelative path sub with
  | some rel => [⟨rel, none⟩]
  | none => []

/-- One turn of the loop of `upstream_edits`. -/
def changeEdits (change : UpstreamChange) : Except RemoteError UpstreamEdits :=
  match change.kind with
  | .added | .modified => newSide forge sub change
  | .removed => .ok (oldSide sub change.path, [])
  | .renamed previous =>
      (newSide forge sub change).map fun found => (oldSide sub previous ++ found.1, found.2)

/-- Whether a change touches the domain. -/
def touchesDomain (change : UpstreamChange) : Bool :=
  match change.kind with
  | .renamed previous =>
      (toDomainRelative change.path sub).isSome || (toDomainRelative previous sub).isSome
  | _ => (toDomainRelative change.path sub).isSome

/-- `upstream_edits`. -/
def upstreamEdits (compare : CompareResult) : Except RemoteError UpstreamEdits :=
  let filtered := compare.files.filter (touchesDomain sub)
  if compare.truncated || maxCompareFiles < filtered.length then
    upstreamEditsFromTarball sha256Hex forge sub files
  else do
    let found ← filtered.mapM (changeEdits forge sub)
    return (found.flatMap Prod.fst, found.flatMap Prod.snd)

end

end Crystalline.Remote
