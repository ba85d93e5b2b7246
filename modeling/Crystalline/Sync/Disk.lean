import Crystalline.Sync.Layout
import Crystalline.Text.Bytes

/-!
# The disk a sync reads

The file system as places named from its top, each a file or a folder, and any
of them may refuse.  There are no links, so `metadata` and `symlink_metadata`
answer alike.
-/

namespace Crystalline.Sync

open Text
open Remote (Path components)

abbrev Bytes := List UInt8

/-- The kinds of `std::io::Error` a lookup ends with. -/
inductive IoError where
  | notFound
  | notADirectory
  | isADirectory
  | permissionDenied
  | invalidData
  deriving DecidableEq, Repr

structure FileNode where
  content : Bytes
  /-- Whole seconds since the epoch. -/
  modified : Int
  statable : Bool
  readable : Bool
  deriving DecidableEq, Repr

structure FolderNode where
  listable : Bool
  traversable : Bool
  deriving DecidableEq, Repr

inductive Node where
  | file (file : FileNode)
  | folder (folder : FolderNode)
  deriving DecidableEq, Repr

/-- The names on the way to an entry, from the top of the file system. -/
abbrev Place := List Text

/-- `std::fs::Metadata`, as far as the sync asks. -/
structure Metadata where
  isFile : Bool
  modified : Int
  size : Nat
  deriving DecidableEq, Repr

/-- `file_mtime`: an instant before the epoch reads as the epoch. -/
def Metadata.mtime (metadata : Metadata) : Int := max metadata.modified 0

/-- One item of a walk below the root. -/
inductive WalkItem where
  | entry (path : Path) (isFile : Bool)
  | failed (path : Path)
  deriving DecidableEq, Repr

/-- `slash_rel` of the names below the root. -/
def slashRel (names : List Text) : Path := ['/'].intercalate names

/-- Whether a segment names an entry, rather than staying or climbing. -/
def isName (segment : Text) : Bool :=
  segment ≠ [] && segment ≠ ".".toList && segment ≠ "..".toList

/-- The file system, and where the domain's root stands in it. -/
structure Disk where
  root : Place
  nodes : AList fun _ : Place => Node
  named : ∀ name ∈ root, isName name = true

namespace Disk

/-- What stands at a place; the top is always a folder. -/
def node (disk : Disk) (place : Place) : Option Node :=
  if place = [] then some (.folder ⟨true, true⟩) else disk.nodes.lookup place

/-- Follow the names from a place, one lookup each. -/
def locate (disk : Disk) : Place → List Text → Except IoError Place
  | place, [] => .ok place
  | place, name :: names =>
      match disk.node place with
      | none => .error .notFound
      | some (.file _) => .error .notADirectory
      | some (.folder folder) =>
          if !folder.traversable then .error .permissionDenied
          else if name = [] || name = ".".toList then locate disk place names
          else if name = "..".toList then locate disk place.dropLast names
          else locate disk (place ++ [name]) names

/-- `root.join(path)`, looked up; an absolute path stands for itself. -/
def find (disk : Disk) (path : Path) : Except IoError Node := do
  let start := if startsWith path "/".toList then [] else disk.root
  let place ← disk.locate [] (start ++ components path)
  match disk.node place with
  | none => .error .notFound
  | some node => .ok node

/-- `std::fs::symlink_metadata`. -/
def metadata (disk : Disk) (path : Path) : Except IoError Metadata := do
  match ← disk.find path with
  | .file file =>
      if file.statable then .ok ⟨true, file.modified, file.content.length⟩
      else .error .permissionDenied
  | .folder _ => .ok ⟨false, 0, 0⟩

/-- `Path::exists`. -/
def existsAt (disk : Disk) (path : Path) : Bool := (disk.metadata path).toOption.isSome

/-- `std::fs::read`. -/
def read (disk : Disk) (path : Path) : Except IoError Bytes := do
  match ← disk.find path with
  | .file file => if file.readable then .ok file.content else .error .permissionDenied
  | .folder _ => .error .isADirectory

/-- `std::fs::read_to_string`. -/
def readText (disk : Disk) (path : Path) : Except IoError Text := do
  match fromUtf8 (← disk.read path) with
  | some text => .ok text
  | none => .error .invalidData

/-- Whether `read_dir` lists the folder at a place. -/
def lists (disk : Disk) (place : Place) : Bool :=
  match disk.locate [] place with
  | .error _ => false
  | .ok there =>
      match disk.node there with
      | some (.folder folder) => folder.listable
      | _ => false

/-- Whether the walk comes to the entry of these names below the root: every
folder above it lists, and the layout enters every step, the entry itself
included. -/
def reaches (disk : Disk) (layout : DomainLayout) (names : List Text) : Bool :=
  (names.inits.dropLast.all fun above => disk.lists (disk.root ++ above)) &&
    names.inits.tail.all fun step => layout.entersDir (slashRel step)

/-- What the walk yields for one entry: a folder it cannot list is yielded and
then fails. -/
def walkNode (disk : Disk) (layout : DomainLayout) (place : Place) (node : Node) :
    List WalkItem :=
  let names := place.drop disk.root.length
  if !disk.root.isPrefixOf place || names = [] || !disk.reaches layout names then []
  else match node with
    | .file _ => [.entry (slashRel names) true]
    | .folder _ =>
        .entry (slashRel names) false ::
          if disk.lists place then [] else [.failed (slashRel names)]

/-- `WalkDir::new(root)` with the layout's `filter_entry`.  A root that cannot
be read is the one error; a root that is a file is walked as that file. -/
def walk (disk : Disk) (layout : DomainLayout) : Except IoError (List WalkItem) :=
  if disk.lists disk.root then
    .ok (disk.nodes.entries.flatMap fun entry => disk.walkNode layout entry.1 entry.2)
  else do
    match disk.node (← disk.locate [] disk.root) with
    | some (.file _) => .ok [.entry [] true]
    | some (.folder _) => .error .permissionDenied
    | none => .error .notFound

end Disk

end Crystalline.Sync
