import Crystalline.Sync.HostMoves

/-!
# The two fronts of a sync

A scan names no path twice, so an apply leaves every row that was written since
the scan's snapshot.  A look at given paths reaches no row of another path, and
takes a row away only where its file was seen gone.
-/

namespace Crystalline.Sync

open Applying
open Remote (Path)

variable {disk looking hashed : Disk} {layout : DomainLayout} {stamps : Stamps}
  {reader : Reader} {looks orders : Orders} {scan : DomainScan} {slabFiles : Nat}
  {keepUnseen : Bool} {engrams : Engrams} {final : Applying} {path : Path}
  {given paths : List Path}

namespace Looked

variable {looked : Looked}

/-- One look finds an engram file, finds a recorded one gone, or leaves both
lists alone. -/
theorem path_cases :
    (looked.path disk layout stamps path).vanished = looked.vanished ∧
      ((looked.path disk layout stamps path).current = looked.current ∨ ∃ mtime size,
        (looked.path disk layout stamps path).current =
          looked.current.insert path ⟨path, mtime, size⟩) ∨
    (looked.path disk layout stamps path).current = looked.current ∧
      (looked.path disk layout stamps path).vanished = looked.vanished ++ [path] ∧
      (stamps.lookup path).isSome ∧ disk.metadata path = .error .notFound := by
  grind [Looked.path, reflectionAsset, reflectionPage, asset, engram, refuse]

/-- What looks at some paths have found. -/
structure Stated (disk : Disk) (stamps : Stamps) (given : List Path) (looked : Looked) :
    Prop where
  lists : Given stamps looked.current looked.vanished
  found : ∀ path, looked.current.lookup path ≠ none → path ∈ given
  gone : ∀ path ∈ looked.vanished, path ∈ given ∧ disk.metadata path = .error .notFound

theorem Stated.step (stated : looked.Stated disk stamps given) (new : path ∉ given) :
    (looked.path disk layout stamps path).Stated disk stamps (given ++ [path]) := by
  obtain ⟨⟨keyed, distinct, recorded, apart⟩, found, gone⟩ := stated
  have notGone : path ∉ looked.vanished := fun member => new (gone path member).1
  have cases := @path_cases disk layout stamps path looked
  generalize looked.path disk layout stamps path = next at cases ⊢
  obtain ⟨vanished, same | ⟨mtime, size, added⟩⟩ | ⟨same, vanished, isRecorded, stat⟩ := cases
  · refine ⟨⟨?_, ?_, ?_, ?_⟩, ?_, ?_⟩ <;> grind
  · have elsewhere {other : Path} (apart : other ≠ path) :
        next.current.lookup other = looked.current.lookup other := by
      rw [added, AList.lookup_insert_ne apart]
    refine ⟨⟨added ▸ Found.keyedByPath_insert keyed path mtime size, ?_, ?_, ?_⟩, ?_, ?_⟩ <;> grind
  · refine ⟨⟨?_, ?_, ?_, ?_⟩, ?_, ?_⟩ <;> grind

theorem stated_run (distinct : given.Nodup) :
    (given.foldl (Looked.path disk layout stamps) nothing).Stated disk stamps given := by
  induction given using List.reverseRecOn with
  | nil => refine ⟨⟨?_, ?_, ?_, ?_⟩, ?_, ?_⟩ <;> simp [nothing, KeyedByPath]
  | append_singleton given path ih =>
      rw [List.nodup_append] at distinct
      rw [List.foldl_append]
      exact (ih distinct.1).step (by grind)

end Looked

theorem firstTimes_once (paths : List Path) :
    (firstTimes paths).Nodup ∧ ∀ path, path ∈ firstTimes paths ↔ path ∈ paths := by
  induction paths using List.reverseRecOn with
  | nil => simp [firstTimes]
  | append_singleton paths path ih =>
      have last : firstTimes (paths ++ [path]) = if (firstTimes paths).contains path
          then firstTimes paths else firstTimes paths ++ [path] := by simp [firstTimes]
      grind

/-- A scan of either front, over the stamps it read. -/
inductive Scans (reader : Reader) (stamps : Stamps) : DomainScan → Prop where
  | domain {layout : DomainLayout} {walked hashed : Disk} {orders : Orders} {force : Bool}
      {scan : DomainScan}
      (done : scanDomain reader layout walked hashed orders stamps force = .ok scan) :
      Scans reader stamps scan
  | paths (layout : DomainLayout) (looking hashed : Disk) (orders : Orders)
      (paths : List Path) :
      Scans reader stamps (scanPaths reader layout looking hashed orders stamps paths)

theorem Scans.formed (scans : Scans reader stamps scan) :
    scan.WellFormed ∧ scan.snapshot = stamps := by
  cases scans with
  | domain done =>
      have whole := Walk.complete_of_scan false "" done
      obtain ⟨found, -, rfl⟩ := scanDomain_ok done
      obtain ⟨_, _, _, _, _, _, _, _, _⟩ := whole.formed
      exact ⟨by constructor <;> assumption, rfl⟩
  | paths layout looking hashed orders paths =>
      have given := (@Looked.stated_run looking layout stamps _ (firstTimes_once paths).1).lists
      obtain ⟨_, _, _, _, _, _, _, _, _⟩ := @wellFormed_classifyChanges reader hashed orders stamps
        _ _ ((firstTimes paths).foldl (Looked.path looking layout stamps) .nothing).unreadable
        false given
      exact ⟨by constructor <;> assumption, rfl⟩

/-- An apply leaves every engram row that was written, moved or deleted since the
scan read the stamps. -/
theorem late_writes_stand (scans : Scans reader stamps scan)
    (done : applyChanges reader disk orders slabFiles keepUnseen scan engrams = .ok final)
    (late : (engrams.lookup path).map EngramRow.stamp ≠ stamps.lookup path) :
    final.engrams.lookup path = engrams.lookup path := by
  obtain ⟨formed, rfl⟩ := scans.formed
  have moved : stampMoved engrams.fileStamps scan.snapshot path = true := by
    simp [stampMoved, late]
  by_cases source : path ∈ scan.moves.map Prod.fst
  · obtain ⟨ends, member, rfl⟩ := List.mem_map.mp source
    rcases lookup_ends formed done member with ⟨-, kept, -⟩ | ⟨fresh, -⟩
    · exact kept
    · simp [moveStale, moved] at fresh
  by_cases target : path ∈ scan.moves.map Prod.snd
  · obtain ⟨ends, member, rfl⟩ := List.mem_map.mp target
    rcases lookup_ends formed done member with ⟨-, -, kept⟩ | ⟨fresh, -⟩
    · exact kept
    · simp [moveStale, moved] at fresh
  by_cases deleted : path ∈ scan.deletes
  · rw [lookup_delete formed done deleted]
    simp [erases, moved]
  by_cases changed : ∃ change ∈ scan.changed, change.scanned.path = path
  · obtain ⟨change, member, rfl⟩ := changed
    rcases lookup_change formed done member with kept | ⟨unmoved, -⟩
    · exact kept
    · rw [moved] at unmoved
      cases unmoved
  · exact lookup_untouched done source target deleted
      fun change member same => changed ⟨change, member, same⟩

namespace LateApply

/-- Digests that tell the contents below apart. -/
def digests : Reader :=
  { TakeOver.reader with sha256 := fun bytes => if bytes.length = 1 then "a" else "b" }

def file (content : Bytes) : Node := .file ⟨content, 5, true, true⟩

/-- `old.md` stands at `new.md` by now, `edited.md` and `c.md` have changed, and
`gone.md` and `a.md` are gone. -/
def folder : Disk where
  root := TakeOver.disk.root
  nodes := (((AList.singleton ["d".toList] (.folder ⟨true, true⟩)).insert
    ["d".toList, "new.md".toList] (file [97])).insert
    ["d".toList, "edited.md".toList] (file [97, 98])).insert
    ["d".toList, "c.md".toList] (file [97, 98])
  named := TakeOver.disk.named

def row (path : String) (mtime : Int) : EngramRow := ⟨path.toList, ⟨mtime, 1, "a"⟩, []⟩

def rows (stamped : List (String × Int)) : Engrams :=
  stamped.foldl (fun rows stamp => rows.insert stamp.1.toList (row stamp.1 stamp.2)) ∅

/-- The rows whose stamps the scan read. -/
def before : Engrams :=
  rows [("old.md", 1), ("edited.md", 1), ("c.md", 1), ("gone.md", 1), ("a.md", 1), ("b.md", 1)]

/-- The rows once `c.md` and `a.md` have been written again. -/
def since : Engrams :=
  rows [("old.md", 1), ("edited.md", 1), ("c.md", 2), ("gone.md", 1), ("a.md", 2), ("b.md", 1)]

def seen : List Path :=
  ["old.md", "new.md", "edited.md", "c.md", "gone.md", "a.md"].map String.toList

/-- A look at the paths, applied late. -/
def applied : Except StoreError Applying :=
  applyChanges digests folder TakeOver.orders 1 false
    (scanPaths digests TakeOver.layout folder folder TakeOver.orders before.fileStamps seen) since

theorem done : ∃ final, applied = .ok final := ⟨_, rfl⟩

end LateApply

theorem late_writes_stand_gone :
    ∃ final, LateApply.applied = .ok final ∧
      final.engrams.lookup "c.md".toList = some (LateApply.row "c.md" 2) ∧
        final.engrams.lookup "a.md".toList = some (LateApply.row "a.md" 2) := by
  obtain ⟨final, done⟩ := LateApply.done
  exact ⟨final, done, (late_writes_stand (.paths ..) done (by decide)).trans rfl,
    (late_writes_stand (.paths ..) done (by decide)).trans rfl⟩

/-- Whether a changed file is put off: its row was written since, or the file
is gone again. -/
def putsOff (disk : Disk) (live snapshot : Stamps) (change : PendingChange) : Bool :=
  stampMoved live snapshot change.scanned.path ||
    (disk.read change.scanned.path = .error .notFound : Bool)

/-- Every change left alone is counted as deferred, and nothing else is. -/
theorem deferred_final
    (done : applyChanges reader disk orders slabFiles keepUnseen scan engrams = .ok final) :
    final.report.deferred = scan.report.deferred +
      (scan.moves.map fun ends => (moveStale engrams.fileStamps scan.snapshot ends).toNat).sum +
      (scan.deletes.map fun path => (stampMoved engrams.fileStamps scan.snapshot path ||
        isBack disk scan.reflection path).toNat).sum +
      (scan.changed.map fun change =>
        (putsOff disk engrams.fileStamps scan.snapshot change).toNat).sum := by
  obtain ⟨moved, deleted, stages⟩ := applyChanges_stages done
  have moving := stages.moving.counts (fun applying => applying.report.deferred) _
    fun before ends after done => (move_counts done).2
  have deleting := stages.deleting.counts (fun applying => applying.report.deferred) _
    fun before path after done => by
      subst done
      exact delete_deferred before path
  have parsing := stages.parsing.counts (fun applying => applying.report.deferred)
    (fun change => (putsOff disk engrams.fileStamps scan.snapshot change).toNat)
    fun before change after done => by
      subst done
      unfold guarded putsOff
      split
      · next stale => rw [stale]; rfl
      · next fresh => rw [(parse_counts before change).2, Bool.eq_false_iff.mpr fresh,
          Bool.false_or]
  rw [parsing, deleting, moving]
  have deletes := ((perm_arrange orders.deleted id scan.deletes).map fun path =>
    (stampMoved engrams.fileStamps scan.snapshot path ||
      isBack disk scan.reflection path).toNat).sum_eq
  have changes := ((@perm_arrivals orders engrams.fileStamps scan.snapshot slabFiles
    scan.changed).map fun change =>
      (putsOff disk engrams.fileStamps scan.snapshot change).toNat).sum_eq
  rw [deletes, changes]

theorem deferred_final_gone :
    ∃ final, LateApply.applied = .ok final ∧ final.report.deferred = 2 := by
  obtain ⟨final, done⟩ := LateApply.done
  exact ⟨final, done, (deferred_final done).trans rfl⟩

/-- A look at given paths and its apply, at any later time, leave the row of every
other path; a row is taken away only where its file was seen gone, and then it
stands at a given path or its file was still gone. -/
theorem scanned_paths_alone
    (done : applyChanges reader disk orders slabFiles keepUnseen
      (scanPaths reader layout looking hashed looks stamps paths) engrams = .ok final) :
    (∀ path ∉ paths, final.engrams.lookup path = engrams.lookup path) ∧
      ∀ path row, engrams.lookup path = some row → final.engrams.lookup path = none →
        looking.metadata path = .error .notFound ∧
        ((∃ target ∈ paths, ∃ permalink,
            final.engrams.lookup target = some { row with permalink := permalink }) ∨
          erases disk engrams.fileStamps stamps layout.reflection keepUnseen path = true) := by
  have formed := (@Scans.paths reader stamps layout looking hashed looks paths).formed.1
  obtain ⟨once, among⟩ := firstTimes_once paths
  obtain ⟨given, found, gone⟩ := @Looked.stated_run looking layout stamps _ once
  simp only [among] at found gone
  generalize named : scanPaths reader layout looking hashed looks stamps paths = scan at done formed
  unfold scanPaths at named
  generalize (firstTimes paths).foldl (Looked.path looking layout stamps) .nothing = looked at *
  obtain ⟨moves, deletes, changed⟩ := @classifyChanges_lists reader hashed looks stamps
    looked.current looked.vanished looked.unreadable false
  have isMove (ends : Path × Path) (member : ends ∈ scan.moves) :
      ends.1 ∈ looked.vanished ∧ ends.2 ∈ paths := by
    subst named
    rw [← moves.symm] at member
    obtain ⟨source, -, scanned, _, _, there, -⟩ := move_of_classified given member
    exact ⟨source, found _ (there ▸ Option.some_ne_none scanned)⟩
  have isDelete (path : Path) (member : path ∈ scan.deletes) : path ∈ looked.vanished := by
    subst named
    exact vanished_of_classified.mpr (.inr (deletes ▸ member))
  constructor
  · intro path unnamed
    refine lookup_untouched done ?_ ?_
      (fun member => unnamed (gone path (isDelete path member)).1) ?_
    · grind
    · grind
    · rintro change member rfl
      subst named
      have there := (change_of_classified given (changed ▸ member)).1
      exact unnamed (found _ (there ▸ Option.some_ne_none change.scanned))
  · intro path row held lost
    rcases gone_engram formed done held lost with
      ⟨target, permalink, member, -, stands⟩ | ⟨member, erased⟩
    · exact ⟨(gone _ (isMove _ member).1).2, .inl ⟨target, (isMove _ member).2, permalink, stands⟩⟩
    · subst named
      exact ⟨(gone _ (isDelete _ member)).2, .inr erased⟩

theorem scanned_paths_alone_gone :
    ∃ final, LateApply.applied = .ok final ∧
      final.engrams.lookup "b.md".toList = some (LateApply.row "b.md" 1) ∧
      ((∃ target ∈ LateApply.seen, ∃ permalink, final.engrams.lookup target =
          some { LateApply.row "old.md" 1 with permalink := permalink }) ∨
        erases LateApply.folder LateApply.since.fileStamps LateApply.before.fileStamps
          TakeOver.layout.reflection false "old.md".toList = true) := by
  obtain ⟨final, done⟩ := LateApply.done
  have alone := scanned_paths_alone done
  have lost : final.engrams.lookup "old.md".toList = none := by
    cases done
    rfl
  exact ⟨final, done, (alone.1 "b.md".toList (by decide)).trans rfl,
    (alone.2 "old.md".toList (LateApply.row "old.md" 1) rfl lost).2⟩

end Crystalline.Sync
