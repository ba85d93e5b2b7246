import Mathlib.Data.List.Sort
import Crystalline.Remote.Paths
import Crystalline.Text.Bytes
import Crystalline.Text.LineEndings

/-!
# Local changes

The working tree against the base snapshot.  A deletion is a base path the walk
did not see, so the two sides go through the same rule, and a path that differs
from a base path by case alone is that path wherever that is unambiguous.
-/

namespace Crystalline.Remote

open Text

/-- The content of a file. -/
abbrev Bytes := List UInt8

/-- The files under a folder, in the order of the walk. -/
abbrev Tree := AList fun _ : Path => Bytes

/-- `MAX_SHARED_FILE_BYTES`. -/
def maxSharedFileBytes : Nat := 5 * 1024 * 1024

/-- One local change relative to the base snapshot. -/
inductive LocalChange where
  | added (path : Path) (sha256 : Sha)
  | modified (path : Path) (sha256 : Sha)
  | deleted (path : Path)
  deriving DecidableEq, Repr

namespace LocalChange

def path : LocalChange → Path
  | added path _ => path
  | modified path _ => path
  | deleted path => path

/-- `is_generated_index`. -/
def isGeneratedIndex (change : LocalChange) : Bool := isIndexPath change.path

@[simp] theorem path_added (path : Path) (sha256 : Sha) :
    (added path sha256).path = path := rfl

@[simp] theorem path_modified (path : Path) (sha256 : Sha) :
    (modified path sha256).path = path := rfl

@[simp] theorem path_deleted (path : Path) : (deleted path).path = path := rfl

end LocalChange

structure LocalChanges where
  changes : List LocalChange
  skippedLarge : List (Path × Nat)
  diskPaths : List (Path × Path)
  deriving DecidableEq

/-- `LocalChanges::disk_path`. -/
def LocalChanges.diskPath (local_ : LocalChanges) (reported : Path) : Path :=
  ((local_.diskPaths.find? fun pair => pair.1 = reported).map Prod.snd).getD reported

/-- `same_as_base`. -/
def sameAsBase (stamp : BaseStamp) (lf : Option Sha) (size : Nat) (sha : Sha) : Bool :=
  (stamp.size = size && stamp.sha256 = sha) || lf = some sha

/-- `matches_base_as_lf`, of the base copies under a state folder. -/
def matchesBaseAsLf (sha256Hex : Bytes → Sha) (copies : Tree) (path : Path)
    (stamp : BaseStamp) (disk : Bytes) : Bool :=
  isMarkdown path &&
    match copies.lookup path with
    | none => false
    | some copy =>
        if sha256Hex copy ≠ stamp.sha256 then false
        else match fromUtf8 disk, fromUtf8 copy with
          | some disk, some copy => toLf disk = toLf copy
          | _, _ => false

theorem matchesBaseAsLf_congr (sha256Hex : Bytes → Sha) {copies other : Tree} {path : Path}
    (same : copies.lookup path = other.lookup path) (stamp : BaseStamp) (disk : Bytes) :
    matchesBaseAsLf sha256Hex copies path stamp disk =
      matchesBaseAsLf sha256Hex other path stamp disk := by
  unfold matchesBaseAsLf
  rw [same]

/-- What a domain is compared with: the digest of a content, the folding of a
path, the rules of the domain, the copies of the base and the digests of the
base files read as LF, where there are any. -/
structure Detector where
  sha256Hex : Bytes → Sha
  foldCase : Path → Path
  policy : SharePolicy
  baseCopies : Option Tree
  lfDigests : Option (AList fun _ : Path => Sha)

namespace Detector

variable (detector : Detector)

/-- `same_text_as_base`. -/
def sameTextAsBase (path : Path) (stamp : BaseStamp) (disk : Bytes) : Bool :=
  detector.baseCopies.any fun copies =>
    matchesBaseAsLf detector.sha256Hex copies path stamp disk

/-- Whether a file is the base entry: the same bytes, or the same text as LF; a
path the digests cover is decided by its digest. -/
def unchanged (path : Path) (stamp : BaseStamp) (disk : Bytes) : Bool :=
  let lf := detector.lfDigests.bind fun digests => digests.lookup path
  sameAsBase stamp lf disk.length (detector.sha256Hex disk) ||
    (lf.isNone && detector.sameTextAsBase path stamp disk)

/-- A file of the walk. -/
abbrev File := Path × Bytes

/-- Whether a file is too large to share. -/
def isLarge (file : File) : Bool := maxSharedFileBytes < file.2.length

/-- The walk: every file that is not hidden and takes part. -/
def walk (tree : Tree) : List File :=
  (tree.entries.map fun entry => (entry.1, entry.2)).filter fun file =>
    !isHiddenPath file.1 && detector.policy.takesPart file.1

/-- The base snapshot, narrowed to the paths that take part. -/
def narrowed (base : Snapshot) : List (Path × BaseStamp) :=
  (base.entries.map fun entry => (entry.1, entry.2)).filter fun entry =>
    detector.policy.takesPart entry.1

/-- The stamp the narrowed base has for a path. -/
def stampOf (base : List (Path × BaseStamp)) (path : Path) : Option BaseStamp :=
  (base.find? fun entry => entry.1 = path).map Prod.snd

/-- What the walk reports of a file the base lists. -/
def modification (base : List (Path × BaseStamp)) (file : File) : Option LocalChange :=
  if isLarge file then none
  else (stampOf base file.1).bind fun stamp =>
    if detector.unchanged file.1 stamp file.2 then none
    else some (.modified file.1 (detector.sha256Hex file.2))

/-- The walked files the base does not list. -/
def unmatched (base : List (Path × BaseStamp)) (walked : List File) : List File :=
  walked.filter fun file => (stampOf base file.1).isNone

/-- The base paths that fold to a value, with their stamps. -/
def foldedBase (base : List (Path × BaseStamp)) (folded : Path) : List (Path × BaseStamp) :=
  base.filter fun entry => detector.foldCase entry.1 = folded

/-- How many unmatched files fold to a value. -/
def foldedDisk (files : List File) (folded : Path) : Nat :=
  files.countP fun file => detector.foldCase file.1 = folded

/-- The base entry an unmatched file adopts: the only one that folds alike, not
found on disk itself, claimed by no other file. -/
def adopts (base : List (Path × BaseStamp)) (seen : List Path) (files : List File)
    (file : File) : Option (Path × BaseStamp) :=
  match detector.foldedBase base (detector.foldCase file.1) with
  | [entry] =>
      if detector.foldedDisk files (detector.foldCase file.1) = 1 && !seen.contains entry.1
      then some entry else none
  | _ => none

def tooLargeToAdopt (path key : Path) : RemoteError :=
  .refused s!"'{String.ofList path}' is too large to share and differs only in letter case from '{String.ofList key}' in the last shared state. Rename it to match, then share again."

/-- What becomes of an unmatched file. -/
def adoption (base : List (Path × BaseStamp)) (seen : List Path) (files : List File)
    (file : File) : Except RemoteError (Option LocalChange) :=
  match detector.adopts base seen files file with
  | some (key, stamp) =>
      if isLarge file then .error (tooLargeToAdopt file.1 key)
      else if detector.unchanged key stamp file.2 then .ok none
      else .ok (some (.modified key (detector.sha256Hex file.2)))
  | none =>
      if isLarge file then .ok none
      else .ok (some (.added file.1 (detector.sha256Hex file.2)))

/-- What the operating system says of a path it did not walk. -/
inductive Presence where
  | there
  | notFound
  | notADirectory
  deriving DecidableEq, Repr

/-- `symlink_metadata` of a path of the domain. -/
def presence (tree : Tree) (path : Path) : Presence :=
  if (tree.lookup path).isSome || tree.keys.any fun file => startsWith file (path ++ ['/'])
  then .there
  else if tree.keys.any fun file => startsWith path (file ++ ['/']) then .notADirectory
  else .notFound

def joinSpellings (spellings : List Path) : String :=
  " and ".intercalate (spellings.map fun spelling => s!"'{String.ofList spelling}'")

def spellingsDiffer (spellings : List Path) : RemoteError :=
  .refused s!"{joinSpellings spellings} in the team repository differ only in letter case. Windows and macOS can hold only one of them, so Crystalline cannot tell whether one was deleted. In the team repository, give each of these files a new name that differs in more than letter case. Do this from a computer that can hold all of them, then try again."

def stillOnDisk (path : Path) : RemoteError :=
  .refused s!"'{String.ofList path}' is in the last shared state and still on disk, but Crystalline could not see it as a file. It may be behind a link or a redirected folder. Replace the link with a real folder that holds the same files, then try again."

/-- Whether a base path is spelled another way on disk. -/
def removedButForCase (base : List (Path × BaseStamp)) (seen : List Path) (path : Path) :
    Bool :=
  let spellings := (detector.foldedBase base (detector.foldCase path)).map Prod.fst
  1 < spellings.length && spellings.any seen.contains

/-- What becomes of a base path. -/
def deletion (tree : Tree) (base : List (Path × BaseStamp)) (seen adopted : List Path)
    (path : Path) : Except RemoteError (Option LocalChange) :=
  if seen.contains path || adopted.contains path || detector.removedButForCase base seen path
  then .ok none
  else
    let folded := detector.foldCase path
    let spellings := (detector.foldedBase base folded).map Prod.fst
    if (seen.map detector.foldCase).contains folded && 1 < spellings.length then
      .error (spellingsDiffer spellings)
    else
      match presence tree path with
      | .notFound => .ok (some (.deleted path))
      | .notADirectory => .error (.workingTree path "Not a directory")
      | .there => .error (stillOnDisk path)

/-- `detect_local_changes_with`. -/
def detectLocalChangesWith (tree : Tree) (base : Snapshot) :
    Except RemoteError LocalChanges := do
  let base := detector.narrowed base
  let walked := detector.walk tree
  let seen := walked.map Prod.fst
  let files := unmatched base walked
  let modified := walked.filterMap (detector.modification base)
  let adoptions := files.filterMap fun file =>
    (detector.adopts base seen files file).map fun entry => (entry.1, file.1)
  let renamed ← files.mapM (detector.adoption base seen files)
  let deleted ← (base.map Prod.fst).mapM
    (detector.deletion tree base seen (adoptions.map Prod.fst))
  let changes := modified ++ renamed.reduceOption ++ deleted.reduceOption
  return {
    changes := changes.insertionSort fun left right => ¬ right.path < left.path
    skippedLarge := (walked.filter isLarge).map fun file => (file.1, file.2.length)
    diskPaths := adoptions }

end Detector

end Crystalline.Remote
