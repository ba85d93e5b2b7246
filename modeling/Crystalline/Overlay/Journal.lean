import Mathlib.Data.List.AList
import Mathlib.Data.List.Dedup
import Crystalline.Programs.Program
import Mathlib.Data.Char
import Mathlib.Data.List.Lex
import Mathlib.Data.List.Sort
import Mathlib.Data.Prod.Lex
import Crystalline.Text.Bytes

/-!
# The overlay journal

One file for each draft, one sidecar for each deletion, under a folder for each
actor.  The readers take actor, path and kind back from the names alone.
-/

namespace Crystalline.Overlay

open Text Programs

section

abbrev Bytes := List UInt8

/-- The names on the way to a file, from the top of the file system. -/
abbrev Place := List (List Char)

/-- A name a folder can hold. -/
def IsEntryName (name : List Char) : Prop := name ≠ [] ∧ '/' ∉ name

/-- `std::io::Error`, as far as a caller looks. -/
inductive IoError where
  | notFound
  | invalidInput (message : List Char)
  | other
  deriving DecidableEq, Repr

/-- The files, by place. -/
structure FileSystem where
  files : AList fun _ : Place => Bytes
  named : ∀ place ∈ files, ∀ name ∈ place, IsEntryName name
  apart : ∀ file ∈ files, ∀ place ∈ files, file <+: place → file = place

/-- The calls on files and folders. -/
inductive FileCall where
  | createDirAll (place : Place)
  | write (place : Place) (bytes : Bytes)
  | rename (source target : Place)
  | removeFile (place : Place)
  | symlinkMetadata (place : Place)
  | readDir (place : Place)
  | removeDir (place : Place)

/-- What a call answers. -/
abbrev FileCall.Answer : FileCall → Type
  | readDir _ => Except IoError (List (List Char))
  | _ => Except IoError Unit

/-- The name under a folder on the way to a file. -/
def nameBelow (folder file : Place) : Option (List Char) :=
  if folder <+: file then (file.drop folder.length).head? else none

namespace FileSystem

variable (disk : FileSystem)

/-- The names `read_dir` lists. -/
def names (folder : Place) : List (List Char) :=
  (disk.files.keys.filterMap (nameBelow folder)).dedup

/-- `Path::is_dir`. -/
def isDir (place : Place) : Bool := disk.names place ≠ []

/-- What a call may answer, and the files it leaves. -/
def Answers : (call : FileCall) → call.Answer → FileSystem → Prop
  | .createDirAll _, _, after => after = disk
  | .write place bytes, .ok _, after => after.files = disk.files.insert place bytes
  | .write place _, .error _, after =>
      after = disk ∨ ∃ torn, after.files = disk.files.insert place torn
  | .rename source target, .ok _, after =>
      ∃ bytes, disk.files.lookup source = some bytes ∧
        after.files = (disk.files.erase source).insert target bytes
  | .rename _ _, .error _, after => after = disk
  | .removeFile place, .ok _, after =>
      place ∈ disk.files ∧ after.files = disk.files.erase place
  | .removeFile place, .error error, after =>
      after = disk ∧ (error = .notFound → place ∉ disk.files)
  | .symlinkMetadata place, .ok _, after =>
      after = disk ∧ (place ∈ disk.files ∨ disk.isDir place = true)
  | .symlinkMetadata _, .error _, after => after = disk
  | .readDir folder, .ok names, after => after = disk ∧ names.Perm (disk.names folder)
  | .readDir _, .error _, after => after = disk
  | .removeDir _, _, after => after = disk

end FileSystem

/-- A program on the files. -/
abbrev OnFiles := Programs.Program FileCall FileCall.Answer IoError

/-- The answers of the files, as an interface. -/
abbrev fileAnswers : Programs.Answers FileSystem FileCall FileCall.Answer :=
  FileSystem.Answers

theorem nameBelow_append (folder rest : Place) : nameBelow folder (folder ++ rest) = rest.head? := by
  rw [nameBelow, if_pos (List.prefix_append _ _), List.drop_left]

variable {disk : FileSystem} {folder : Place}

theorem mem_names {name : List Char} :
    name ∈ disk.names folder ↔ ∃ rest, folder ++ name :: rest ∈ disk.files := by
  rw [FileSystem.names, List.mem_dedup, List.mem_filterMap]
  constructor
  · rintro ⟨file, member, found⟩
    unfold nameBelow at found
    split at found
    · next above =>
        obtain ⟨rest, rfl⟩ := above
        rw [List.drop_left] at found
        obtain ⟨tail, rfl⟩ := List.head?_eq_some_iff.mp found
        exact ⟨tail, AList.mem_keys.mpr member⟩
    · cases found
  · rintro ⟨rest, member⟩
    exact ⟨_, AList.mem_keys.mp member, nameBelow_append folder (name :: rest)⟩

theorem isDir_iff :
    disk.isDir folder = true ↔ ∃ name rest, folder ++ name :: rest ∈ disk.files := by
  rw [FileSystem.isDir, decide_eq_true_iff]
  constructor
  · intro some
    obtain ⟨name, member⟩ := List.exists_mem_of_ne_nil _ some
    exact ⟨name, mem_names.mp member⟩
  · rintro ⟨name, rest, member⟩
    exact List.ne_nil_of_mem (mem_names.mpr ⟨rest, member⟩)

theorem isDir_of_file {place : Place} (held : place ∈ disk.files) : disk.isDir place = false := by
  rw [Bool.eq_false_iff]
  intro folder
  obtain ⟨name, rest, member⟩ := isDir_iff.mp folder
  have same := disk.apart place held _ member (List.prefix_append _ _)
  simp at same

end

/-- What the process brings: its id, how a name folds on a disk that folds case,
and how a refused name is shown. -/
structure Host where
  processId : Nat
  foldPathCase : Text → Text
  escapeDebug : Text → Text

def journalDir : Text := "overlays".toList

def tombstoneSuffix : Text := ".tombstone".toList

/-- `split('/')`. -/
def segments (path : Text) : List Text := path.splitOn '/'

/-- `is_within_domain`. -/
def isWithinDomain (path : Text) : Bool :=
  path ≠ [] && !startsWith path ['/'] &&
    (segments path).all fun segment =>
      segment ≠ [] && segment ≠ ".".toList && segment ≠ "..".toList

/-- `is_contained_rel`. -/
def isContainedRel (path : Text) : Bool :=
  isWithinDomain path &&
    (segments path).all fun segment => '\\' ∉ segment && ':' ∉ segment

/-- `is_md`: no letter but the ASCII ones lowercases into the suffix. -/
def isMd (path : Text) : Bool := endsWith (path.map Char.toLower) ".md".toList

variable (host : Host)

/-- `refused`. -/
def refused (what value : Text) : IoError :=
  .invalidInput ("the overlay journal refuses the ".toList ++ what ++ " '".toList ++
    host.escapeDebug value ++ "': it must stay inside the journal folder".toList)

/-- `one_segment`. -/
def oneSegment (name what : Text) : Except IoError Text :=
  if !isContainedRel name || '/' ∈ name then .error (refused host what name) else .ok name

/-- `domain_dir`. -/
def domainDir (stateDir : Place) (domain : Text) : Except IoError Place := do
  return stateDir ++ [journalDir, ← oneSegment host domain "domain".toList]

/-- `actor_dir`. -/
def actorDir (stateDir : Place) (domain actor : Text) : Except IoError Place := do
  let folder ← domainDir host stateDir domain
  return folder ++ [← oneSegment host actor "actor".toList]

/-- `entry_path`. -/
def entryPath (stateDir : Place) (domain actor path : Text) : Except IoError Place :=
  if !isWithinDomain path || !isMd path then .error (refused host "path".toList path)
  else do return (← actorDir host stateDir domain actor) ++ segments path

/-- A file's name with something added. -/
def extendName (file : Place) (suffix : Text) : Place :=
  file.dropLast ++ [file.getLastD [] ++ suffix]

/-- `tombstone_of`. -/
def tombstoneOf (file : Place) : Place := extendName file tombstoneSuffix

/-- `temp_sibling`. -/
def tempSibling (file : Place) : Place :=
  extendName file (".tmp.".toList ++ Nat.toDigits 10 host.processId)

def removeFile (place : Place) : OnFiles (Except IoError Unit) :=
  Program.request (FileCall.removeFile place)

def symlinkMetadata (place : Place) : OnFiles (Except IoError Unit) :=
  Program.request (FileCall.symlinkMetadata place)

def readDir (folder : Place) : OnFiles (Except IoError (List Text)) :=
  Program.request (FileCall.readDir folder)

def removeDir (folder : Place) : OnFiles (Except IoError Unit) :=
  Program.request (FileCall.removeDir folder)

/-- A call whose refusal is wrapped. -/
def wrapped (call : OnFiles (Except IoError Unit)) : OnFiles Unit := do
  match ← call with
  | .ok _ => pure ()
  | .error _ => .stop .other

/-- `create_dir_all` of the folder of a file that has one. -/
def createParent (file : Place) : OnFiles Unit :=
  if file.dropLast = [] then pure ()
  else wrapped (Program.request (FileCall.createDirAll file.dropLast))

/-- `save`: the bytes go to a temporary sibling that is then renamed. -/
def save (file : Place) (bytes : Bytes) : OnFiles Unit := do
  createParent file
  wrapped (Program.request (FileCall.write (tempSibling host file) bytes))
  wrapped (Program.request (FileCall.rename (tempSibling host file) file))

/-- `remove_if_present`. -/
def removeIfPresent (file : Place) : OnFiles Unit := do
  match ← removeFile file with
  | .ok _ => pure ()
  | .error .notFound => pure ()
  | .error error => .stop error

/-- `remove_entry_if_present`: a name the folder holds only in another case is
somebody else's entry. -/
def removeEntryIfPresent (file : Place) : OnFiles Unit := do
  match ← symlinkMetadata file with
  | .error _ => removeIfPresent file
  | .ok _ =>
    match ← readDir file.dropLast with
    | .error _ => removeIfPresent file
    | .ok entries =>
      let name := file.getLastD []
      if name ∈ entries then removeIfPresent file
      else if entries.any fun entry => host.foldPathCase entry = host.foldPathCase name then pure ()
      else removeIfPresent file

/-- `prune_empty`, over the folders from the inside out. -/
def pruneEmpty (stop : Place) : List Place → OnFiles Unit
  | [] => pure ()
  | folder :: folders =>
    if ¬ stop <+: folder then pure ()
    else do
      match ← removeDir folder with
      | .error _ => pure ()
      | .ok _ => if folder = stop then pure () else pruneEmpty stop folders

section Calls

variable (stateDir : Place) (domain actor path : Text)

/-- `journal_write`. -/
def journalWrite (content : Text) : OnFiles Unit := do
  let file ← Program.orStop (entryPath host stateDir domain actor path)
  save host file (toUtf8 content)
  removeEntryIfPresent host (tombstoneOf file)

/-- `journal_tombstone`. -/
def journalTombstone : OnFiles Unit := do
  let file ← Program.orStop (entryPath host stateDir domain actor path)
  removeEntryIfPresent host file
  save host (tombstoneOf file) []

/-- `journal_clear`. -/
def journalClear : OnFiles Unit := do
  let file ← Program.orStop (entryPath host stateDir domain actor path)
  removeEntryIfPresent host (tombstoneOf file)
  removeEntryIfPresent host file
  let stop ← Program.orStop (actorDir host stateDir domain actor)
  pruneEmpty stop file.dropLast.inits.reverse

end Calls

/-- `JournalEntry`: a draft's markdown, or nothing for a deletion. -/
structure JournalEntry where
  actor : Text
  path : Text
  content : Option Text
  deriving DecidableEq, Repr

/-- `JournalRead`. -/
structure JournalRead where
  entries : List JournalEntry
  unreadable : Bool

/-- In which order `read_dir` yields a folder's names. -/
structure Listing where
  order : Place → List Text → List Text
  perm : ∀ folder names, (order folder names).Perm names

/-- One file the walk comes to, by its path below the actor's folder: what it is
read as, and whether it could not be read. -/
def readFile (actor relative : Text) (bytes : Bytes) : Option JournalEntry × Bool :=
  match stripSuffix tombstoneSuffix relative with
  | some base =>
    (if isWithinDomain base && isMd base then some ⟨actor, base, none⟩ else none, false)
  | none =>
    match fromUtf8 bytes with
    | none => (none, true)
    | some text =>
      (if isWithinDomain relative && isMd relative then some ⟨actor, relative, some text⟩
        else none, false)

/-- `collect`, over a bound on how deep the files stand. -/
def collect (listing : Listing) (disk : FileSystem) (actor : Text) :
    Nat → Place → Text → List JournalEntry × Bool
  | 0, _, _ => ([], false)
  | depth + 1, folder, above =>
    let found := (listing.order folder (disk.names folder)).map fun name =>
      let relative := if above = [] then name else above ++ '/' :: name
      let place := folder ++ [name]
      if disk.isDir place then collect listing disk actor depth place relative
      else
        match disk.files.lookup place with
        | none => ([], true)
        | some bytes => ((readFile actor relative bytes).1.toList, (readFile actor relative bytes).2)
    (found.flatMap Prod.fst, found.any Prod.snd)

/-- How deep the deepest file stands. -/
def FileSystem.depth (disk : FileSystem) : Nat :=
  (disk.files.keys.map List.length).foldr max 0

/-- `dedup_by` of a draft and a tombstone at one path: the draft is taken. -/
def mergeInto (kept : JournalEntry) : List JournalEntry → List JournalEntry
  | [] => [kept]
  | next :: rest =>
    if kept.actor = next.actor ∧ kept.path = next.path then
      mergeInto { kept with content := kept.content.or next.content } rest
    else kept :: mergeInto next rest

def mergePairs : List JournalEntry → List JournalEntry
  | [] => []
  | first :: rest => mergeInto first rest

def JournalEntry.key (entry : JournalEntry) : Text ×ₗ Text := toLex (entry.actor, entry.path)

/-- `walk`, reading the contents. -/
def walk (listing : Listing) (disk : FileSystem) (stateDir : Place) (domain : Text) :
    List JournalEntry × Bool :=
  match domainDir host stateDir domain with
  | .error _ => ([], true)
  | .ok folder =>
    if folder ∈ disk.files then ([], true)
    else
      let actors := (listing.order folder (disk.names folder)).filter fun actor =>
        disk.isDir (folder ++ [actor]) && (oneSegment host actor "actor".toList).isOk
      let found := actors.map fun actor =>
        collect listing disk actor disk.depth (folder ++ [actor]) []
      (mergePairs ((found.flatMap Prod.fst).insertionSort fun left right => left.key ≤ right.key),
        found.any Prod.snd)

/-- `journal_entries`. -/
def journalEntries (listing : Listing) (disk : FileSystem) (stateDir : Place) (domain : Text) :
    JournalRead :=
  ⟨(walk host listing disk stateDir domain).1, (walk host listing disk stateDir domain).2⟩

end Crystalline.Overlay
