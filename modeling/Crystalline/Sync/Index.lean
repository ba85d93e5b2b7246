import Crystalline.Keyed.Table
import Crystalline.Remote.Records

/-!
# The rows of a domain

What the store keeps of a file domain: the engram rows, the attachment rows and
the two tables of the Reflection, with the statements a sync runs on them.
-/

namespace Crystalline.Sync

open Remote (Path Sha)

/-- The recorded stat and checksum of one engram file. -/
structure FileStamp where
  mtime : Int
  size : Nat
  sha256 : Sha
  deriving DecidableEq, Repr

abbrev Stamps := AList fun _ : Path => FileStamp

/-- One engram row; the columns derived from the content are left out. -/
structure EngramRow where
  permalink : Text
  stamp : FileStamp
  content : Text
  deriving DecidableEq, Repr

abbrev Engrams := AList fun _ : Path => EngramRow

/-- One attachment's metadata. -/
structure AttachmentRow where
  sha256 : Sha
  mime : String
  size : Nat
  modified : Int
  deriving DecidableEq, Repr

/-- One page of the Reflection, keyed by its path inside the folder. -/
structure ReflectionRow where
  sha256 : Sha
  size : Nat
  modified : Int
  content : Text
  deriving DecidableEq, Repr

structure Tables where
  engrams : Engrams
  attachments : AList fun _ : Path => AttachmentRow
  reflections : AList fun _ : Path => ReflectionRow
  reflectionAssets : AList fun _ : Path => AttachmentRow

inductive StoreError where
  /-- A permalink another path holds. -/
  | permalinkTaken (permalink : Text) (holder : Path)
  | uniqueViolation
  deriving DecidableEq, Repr

namespace Engrams

/-- `file_stamps`. -/
def fileStamps (engrams : Engrams) : Stamps := Keyed.mapValues EngramRow.stamp engrams

@[simp] theorem lookup_fileStamps (engrams : Engrams) (path : Path) :
    engrams.fileStamps.lookup path = (engrams.lookup path).map EngramRow.stamp :=
  Keyed.lookup_mapValues _ _ _

/-- The path other than `path` whose row answers to a permalink. -/
def otherHolder (engrams : Engrams) (path : Path) (permalink : Text) : Option Path :=
  (engrams.entries.find? fun entry => entry.1 ≠ path && entry.2.permalink = permalink).map
    Sigma.fst

/-- `upsert_engram`: refused when another path holds the permalink. -/
def upsert (engrams : Engrams) (path : Path) (row : EngramRow) : Except StoreError Engrams :=
  match engrams.otherHolder path row.permalink with
  | some holder => .error (.permalinkTaken row.permalink holder)
  | none => .ok (engrams.insert path row)

/-- Whether a row other than the one renamed already stands at its new path or
answers to its new permalink. -/
def renameClashes (engrams : Engrams) (source target : Path) (permalink : Text) : Bool :=
  engrams.entries.any fun entry =>
    entry.1 ≠ source && (entry.1 = target || entry.2.permalink = permalink)

/-- `rename_engram`: the permalink follows the path when it was the path's
slug. -/
def rename (slugify : Path → Text) (engrams : Engrams) (source target : Path) :
    Except StoreError Engrams :=
  match engrams.lookup source with
  | none => .ok engrams
  | some row =>
      let permalink := if row.permalink = slugify source then slugify target else row.permalink
      if engrams.renameClashes source target permalink then .error .uniqueViolation
      else .ok ((engrams.erase source).insert target { row with permalink := permalink })

variable {engrams after : Engrams}

theorem upsert_ok {path : Path} {row : EngramRow} (done : engrams.upsert path row = .ok after) :
    after = engrams.insert path row := by
  unfold upsert at done
  split at done
  · cases done
  · exact (Except.ok.inj done).symm

/-- What a rename that answers does: nothing without a row, else the row goes
to its new path under a permalink no other row answers to. -/
theorem rename_ok {slugify : Path → Text} {source target : Path}
    (done : engrams.rename slugify source target = .ok after) :
    (engrams.lookup source = none ∧ after = engrams) ∨
      ∃ row permalink, engrams.lookup source = some row ∧
        engrams.renameClashes source target permalink = false ∧
        after = (engrams.erase source).insert target { row with permalink := permalink } := by
  unfold rename at done
  split at done
  · next absent => exact .inl ⟨absent, (Except.ok.inj done).symm⟩
  · next row found =>
    dsimp only at done
    generalize (if row.permalink = slugify source then slugify target
      else row.permalink) = permalink at done
    split at done
    · cases done
    · next free =>
      exact .inr ⟨row, permalink, found, by simpa using free, (Except.ok.inj done).symm⟩

end Engrams

end Crystalline.Sync
