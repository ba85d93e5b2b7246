import Mathlib.Data.List.Sort
import Crystalline.Sync.Disk
import Crystalline.Sync.Index

/-!
# The two fronts of a sync

`scanDomain` walks the whole domain, `scanPaths` looks at a list of paths; both
hand what they found on disk to `classifyChanges`.  The orders in which tasks
finish and hash maps iterate are a rank of the paths, chosen freely.
-/

namespace Crystalline.Sync

open Text
open Remote (Path Sha ReflectionMode fileName isUnderAssets isUnderReflections)

/-- What the sync takes from contents: the digest, and the permalink of the
record parsed from a text or the parser's refusal. -/
structure Reader where
  sha256 : Bytes → Sha
  permalink : Text → Path → Except Text Text
  slugify : Path → Text

/-- In which order recorded paths are iterated, hashes and parses arrive and
deletes are applied. -/
structure Orders where
  recorded : Path → Nat
  hashed : Path → Nat
  deleted : Path → Nat
  parsed : Path → Nat

/-- The items in the order of their paths' ranks. -/
def arrange {Item : Type*} (rank : Path → Nat) (path : Item → Path) (items : List Item) :
    List Item :=
  items.insertionSort fun left right => rank (path left) ≤ rank (path right)

variable {Item : Type*}

theorem perm_arrange (rank : Path → Nat) (path : Item → Path) (items : List Item) :
    (arrange rank path items).Perm items :=
  List.perm_insertionSort _ _

@[simp] theorem mem_arrange {rank : Path → Nat} {path : Item → Path} {items : List Item}
    {item : Item} : item ∈ arrange rank path items ↔ item ∈ items :=
  (perm_arrange rank path items).mem_iff

/-- A file found on disk: its key, and its stat. -/
structure Scanned where
  path : Path
  mtime : Int
  size : Nat
  deriving DecidableEq, Repr

structure PendingChange where
  scanned : Scanned
  previouslyIndexed : Bool
  deriving DecidableEq, Repr

/-- One file the walk found for a row table: its row key, where it was found,
and its stat. -/
structure FileCandidate where
  path : Path
  found : Path
  mtime : Int
  size : Nat
  deriving DecidableEq, Repr

inductive Failure where
  | io (error : IoError)
  | notUtf8
  | parse (refusal : Text)
  | store (refusal : StoreError)
  deriving DecidableEq, Repr

/-- The rows the last complete walk kept without seeing their files. -/
structure OnlyElsewhere where
  previousHost : Option String
  engrams : Nat
  attachments : Nat
  pages : Nat
  files : Nat
  deriving DecidableEq, Repr

def OnlyElsewhere.total (only : OnlyElsewhere) : Nat :=
  only.engrams + only.attachments + only.pages + only.files

/-- The counts of one sync; what is announced path by path is left out. -/
structure SyncReport where
  added : Nat
  updated : Nat
  deleted : Nat
  moved : Nat
  unchanged : Nat
  deferred : Nat
  failed : List (Path × Failure)
  unread : Nat
  reflectionsChanged : Nat
  onlyElsewhere : Option OnlyElsewhere
  hostMoveResolved : Bool
  deriving DecidableEq, Repr

def SyncReport.blank : SyncReport := ⟨0, 0, 0, 0, 0, 0, [], 0, 0, none, false⟩

structure DomainScan where
  moves : List (Path × Path)
  deletes : List Path
  changed : List PendingChange
  snapshot : Stamps
  assets : List FileCandidate
  assetDeletes : List Path
  assetsComplete : Bool
  reflections : List FileCandidate
  reflectionDeletes : List Path
  reflectionAssets : List FileCandidate
  reflectionAssetDeletes : List Path
  reflectionsComplete : Bool
  acceptDisk : Bool
  walker : Option String
  reflection : ReflectionMode
  endsRebuild : Bool
  report : SyncReport

/-- The markdown files found on disk, by path. -/
abbrev Current := AList fun _ : Path => Scanned

/-- Whether the recorded stamp makes hashing a file superfluous. -/
def prefiltered (force : Bool) (stamps : Stamps) (scanned : Scanned) : Bool :=
  (stamps.lookup scanned.path).any fun stamp =>
    !force && stamp.mtime = scanned.mtime && stamp.size = scanned.size

/-- One arrival of `hash_files`: a file that cannot be read is reported and
left out of the changed set. -/
def hashStep (reader : Reader) (disk : Disk) (out : List (Scanned × Sha) × SyncReport)
    (scanned : Scanned) : List (Scanned × Sha) × SyncReport :=
  match disk.read scanned.path with
  | .ok bytes => (out.1 ++ [(scanned, reader.sha256 bytes)], out.2)
  | .error refused =>
      (out.1, { out.2 with
        failed := out.2.failed ++ [(scanned.path, .io refused)], unread := out.2.unread + 1 })

/-- What the classification of the hashed files adds up. -/
structure Classified where
  moves : List (Path × Path)
  changed : List PendingChange
  remaining : List Path
  unchanged : Nat

/-- The first vanished path still unclaimed whose recorded content has this
digest. -/
def vanishedTwin (stamps : Stamps) (vanished remaining : List Path) (sha256 : Sha) :
    Option Path :=
  vanished.find? fun path =>
    remaining.contains path && (stamps.lookup path).any fun stamp => stamp.sha256 = sha256

/-- The classification of one hashed file. -/
def classifyHashed (stamps : Stamps) (force : Bool) (vanished : List Path)
    (out : Classified) (hashed : Scanned × Sha) : Classified :=
  match stamps.lookup hashed.1.path with
  | none =>
      match vanishedTwin stamps vanished out.remaining hashed.2 with
      | some source =>
          { out with
            remaining := out.remaining.erase source
            moves := out.moves ++ [(source, hashed.1.path)] }
      | none => { out with changed := out.changed ++ [⟨hashed.1, false⟩] }
  | some stamp =>
      if stamp.sha256 = hashed.2 && !force then { out with unchanged := out.unchanged + 1 }
      else { out with changed := out.changed ++ [⟨hashed.1, true⟩] }

/-- `classify_changes`: prefilter, hash, match vanished paths with new files of
the same content. -/
def classifyChanges (reader : Reader) (disk : Disk) (orders : Orders) (stamps : Stamps)
    (current : Current) (vanished : List Path) (unreadable : List (Path × Failure))
    (force : Bool) : DomainScan :=
  let files := current.entries.map Sigma.snd
  let toHash := files.filter fun scanned => !prefiltered force stamps scanned
  let hashed := (arrange orders.hashed Scanned.path toHash).foldl (hashStep reader disk)
    ([], { SyncReport.blank with
      failed := unreadable, unchanged := files.length - toHash.length })
  let classified := hashed.1.foldl (classifyHashed stamps force vanished) ⟨[], [], vanished, 0⟩
  { moves := classified.moves
    deletes := classified.remaining
    changed := classified.changed
    snapshot := stamps
    assets := []
    assetDeletes := []
    assetsComplete := false
    reflections := []
    reflectionDeletes := []
    reflectionAssets := []
    reflectionAssetDeletes := []
    reflectionsComplete := false
    acceptDisk := false
    walker := none
    reflection := .off
    endsRebuild := false
    report := { hashed.2 with unchanged := hashed.2.unchanged + classified.unchanged } }

/-- The largest attachment, in bytes. -/
def maxAttachmentBytes : Nat := 10 * 1024 * 1024

/-- `base.join(path)` below the root. -/
def below (base path : Path) : Path := if base = [] then path else base ++ '/' :: path

/-- The spelling an attachment's row is keyed by: the canonical one, if it
resolves where the folder stands in another case. -/
def assetKey (disk : Disk) (base path : Path) : Option Path :=
  match canonicalAssetPath path with
  | some canonical =>
      if canonical = path || disk.existsAt (below base canonical) then some canonical else none
  | none => some path

/-- `asset_candidate`: `path` is the file's path below `base`, `found` where it
stands in the domain. -/
def assetCandidate (disk : Disk) (base path found : Path) (metadata : Metadata) :
    Option FileCandidate := do
  let key ← assetKey disk base path
  if (validateAssetPath key).toOption.isSome && (attachmentMime (fileName found)).isSome &&
      metadata.size ≤ maxAttachmentBytes then
    some ⟨key, found, metadata.mtime, metadata.size⟩
  else none

/-- The Reflection's folder as it is spelled, and the path inside it. -/
def splitReflection (path : Path) : Path × Path :=
  (splitOnce "/".toList path).getD (path, [])

/-- `reflection_asset_candidate`. -/
def reflectionAssetCandidate (disk : Disk) (path : Path) (metadata : Metadata) :
    Option FileCandidate :=
  assetCandidate disk (splitReflection path).1 (splitReflection path).2 path metadata

/-- What a walk found. -/
structure Found where
  current : Current
  assets : List FileCandidate
  reflections : List FileCandidate
  reflectionAssets : List FileCandidate
  unread : Nat
  unreadReflections : Bool

namespace Found

def nothing : Found := ⟨∅, [], [], [], 0, false⟩

/-- An entry under the Reflection's folder that could not be read. -/
def missReflection (found : Found) : Found :=
  { found with unread := found.unread + 1, unreadReflections := true }

/-- One regular file of the walk, by its class. -/
def file (disk : Disk) (layout : DomainLayout) (found : Found) (path : Path) : Found :=
  match layout.classify path with
  | .engramAsset =>
      match disk.metadata path with
      | .ok metadata =>
          { found with assets := found.assets ++
              (assetCandidate disk [] path path metadata).toList }
      | .error _ => found
  | .engram =>
      match disk.metadata path with
      | .ok metadata =>
          { found with current := found.current.insert path ⟨path, metadata.mtime, metadata.size⟩ }
      | .error _ => { found with unread := found.unread + 1 }
  | .hidden | .reserved | .artifact | .other => found
  | .reflection (.page _) | .reflection .pact =>
      match disk.metadata path with
      | .ok metadata =>
          { found with reflections := found.reflections ++
              [⟨DomainLayout.innerRel path, path, metadata.mtime, metadata.size⟩] }
      | .error _ => found.missReflection
  | .reflection (.asset _) =>
      match disk.metadata path with
      | .ok metadata =>
          { found with reflectionAssets := found.reflectionAssets ++
              (reflectionAssetCandidate disk path metadata).toList }
      | .error _ => found.missReflection
  | .reflection (.threads _) =>
      match disk.read path with
      | .ok _ => found
      | .error _ => found.missReflection
  | .reflection (.baseline _) | .reflection .other => found

/-- One item of the walk. -/
def item (disk : Disk) (layout : DomainLayout) (found : Found) : WalkItem → Found
  | .failed path =>
      { found with
        unread := found.unread + 1
        unreadReflections := found.unreadReflections || isUnderReflections path }
  | .entry path isFile => if isFile then found.file disk layout path else found

end Found

/-- What the walk of a disk finds. -/
def survey (disk : Disk) (layout : DomainLayout) : Except IoError Found := do
  let items ← disk.walk layout
  return items.foldl (Found.item disk layout) Found.nothing

/-- `scan_domain`: the walk at one moment, the hashing at a later one. -/
def scanDomain (reader : Reader) (layout : DomainLayout) (walked hashed : Disk)
    (orders : Orders) (stamps : Stamps) (force : Bool) : Except IoError DomainScan := do
  let found ← survey walked layout
  let vanished := arrange orders.recorded id
    (stamps.keys.filter fun path => !(found.current.lookup path).isSome)
  let scan := classifyChanges reader hashed orders stamps found.current vanished [] force
  return { scan with
    assets := found.assets
    assetsComplete := true
    endsRebuild := force
    reflections := found.reflections
    reflectionAssets := found.reflectionAssets
    reflectionsComplete := !found.unreadReflections
    reflection := layout.reflection
    report := { scan.report with unread := scan.report.unread + found.unread } }

/-- What a look at the given paths found. -/
structure Looked where
  current : Current
  vanished : List Path
  unreadable : List (Path × Failure)
  assets : List FileCandidate
  assetDeletes : List Path
  reflections : List FileCandidate
  reflectionDeletes : List Path
  reflectionAssets : List FileCandidate
  reflectionAssetDeletes : List Path

namespace Looked

def nothing : Looked := ⟨∅, [], [], [], [], [], [], [], []⟩

def refuse (looked : Looked) (path : Path) (error : IoError) : Looked :=
  { looked with unreadable := looked.unreadable ++ [(path, .io error)] }

def reflectionAsset (disk : Disk) (looked : Looked) (path canonical : Path) : Looked :=
  match disk.metadata path with
  | .ok metadata =>
      if metadata.isFile then
        { looked with reflectionAssets := looked.reflectionAssets ++
            (reflectionAssetCandidate disk path metadata).toList }
      else looked
  | .error .notFound =>
      if canonical = (splitReflection path).2 ||
          !disk.existsAt (below (splitReflection path).1 canonical) then
        { looked with reflectionAssetDeletes := looked.reflectionAssetDeletes ++ [canonical] }
      else looked
  | .error refused => looked.refuse path refused

def reflectionPage (disk : Disk) (looked : Looked) (path : Path) : Looked :=
  match disk.metadata path with
  | .ok metadata =>
      if metadata.isFile then
        { looked with reflections := looked.reflections ++
            [⟨DomainLayout.innerRel path, path, metadata.mtime, metadata.size⟩] }
      else looked
  | .error .notFound =>
      { looked with reflectionDeletes :=
          looked.reflectionDeletes ++ [DomainLayout.innerRel path] }
  | .error refused => looked.refuse path refused

/-- A path under `assets/`: a file is a candidate when the layout calls it an
attachment, a path that is gone is a delete whatever its class. -/
def asset (disk : Disk) (layout : DomainLayout) (looked : Looked) (path : Path) : Looked :=
  match disk.metadata path with
  | .ok metadata =>
      if metadata.isFile && layout.classify path = .engramAsset then
        { looked with assets := looked.assets ++
            (assetCandidate disk [] path path metadata).toList }
      else looked
  | .error .notFound =>
      let canonical := (canonicalAssetPath path).getD path
      if canonical = path || !disk.existsAt canonical then
        { looked with assetDeletes := looked.assetDeletes ++ [canonical] }
      else looked
  | .error refused => looked.refuse path refused

def engram (disk : Disk) (layout : DomainLayout) (stamps : Stamps) (looked : Looked)
    (path : Path) : Looked :=
  match disk.metadata path with
  | .ok metadata =>
      if metadata.isFile && layout.classify path = .engram then
        { looked with
          current := looked.current.insert path ⟨path, metadata.mtime, metadata.size⟩ }
      else looked
  | .error .notFound =>
      if (stamps.lookup path).isSome then
        { looked with vanished := looked.vanished ++ [path] }
      else looked
  | .error refused => looked.refuse path refused

/-- One given path.  Threads, the baseline and stray files of the Reflection
are never rows. -/
def path (disk : Disk) (layout : DomainLayout) (stamps : Stamps) (looked : Looked)
    (path : Path) : Looked :=
  match layout.classify path with
  | .reflection (.asset canonical) => looked.reflectionAsset disk path canonical
  | .reflection (.page _) | .reflection .pact => looked.reflectionPage disk path
  | .reflection (.threads _) | .reflection (.baseline _) | .reflection .other => looked
  | .engram | .engramAsset | .reserved | .hidden | .artifact | .other =>
      if isUnderAssets path then looked.asset disk layout path
      else looked.engram disk layout stamps path

end Looked

/-- The first time each path is given. -/
def firstTimes (paths : List Path) : List Path :=
  paths.foldl (fun seen path => if seen.contains path then seen else seen ++ [path]) []

/-- `scan_paths`: deletion is looked for among the given paths alone. -/
def scanPaths (reader : Reader) (layout : DomainLayout) (looking hashed : Disk)
    (orders : Orders) (stamps : Stamps) (paths : List Path) : DomainScan :=
  let looked := (firstTimes paths).foldl (Looked.path looking layout stamps) Looked.nothing
  let scan := classifyChanges reader hashed orders stamps looked.current looked.vanished
    looked.unreadable false
  { scan with
    assets := looked.assets
    assetDeletes := looked.assetDeletes
    reflections := looked.reflections
    reflectionDeletes := looked.reflectionDeletes
    reflectionAssets := looked.reflectionAssets
    reflectionAssetDeletes := looked.reflectionAssetDeletes
    reflection := layout.reflection }

end Crystalline.Sync
