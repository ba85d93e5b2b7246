import Crystalline.Keyed.Passes
import Crystalline.Sync.Apply

/-!
# What an apply does to the engram rows

The moves, the deletes and the parsed files are three passes over the rows, and
each item changes the rows of its own paths alone.
-/

namespace Crystalline.Sync

open Text Keyed
open Remote (Path ReflectionMode)

namespace Applying

/-- Whether either end of a move was written since the snapshot. -/
def moveStale (live snapshot : Stamps) (ends : Path × Path) : Bool :=
  stampMoved live snapshot ends.1 || stampMoved live snapshot ends.2

variable {slugify : Path → Text} {live snapshot : Stamps} {ends : Path × Path}
  {applying next : Applying}

theorem move_stale (stale : moveStale live snapshot ends = true) :
    applying.move slugify live snapshot ends = .ok applying.defer := if_pos stale

theorem move_fresh (fresh : moveStale live snapshot ends = false)
    (done : applying.move slugify live snapshot ends = .ok next) :
    ∃ engrams, applying.engrams.rename slugify ends.1 ends.2 = .ok engrams ∧
      next = { applying with
        engrams := engrams
        report := { applying.report with moved := applying.report.moved + 1 } } := by
  unfold move at done
  rw [if_neg (by simpa [moveStale] using fresh)] at done
  cases renamed : applying.engrams.rename slugify ends.1 ends.2 with
  | error refused =>
      rw [renamed] at done
      cases done
  | ok engrams =>
      rw [renamed] at done
      exact ⟨engrams, rfl, (Except.ok.inj done).symm⟩

theorem move_alone {path : Path} (done : applying.move slugify live snapshot ends = .ok next)
    (apart : ¬ (path = ends.1 ∨ path = ends.2)) :
    next.engrams.lookup path = applying.engrams.lookup path := by
  cases stale : moveStale live snapshot ends with
  | true =>
      rw [move_stale stale] at done
      obtain rfl := Except.ok.inj done
      rfl
  | false =>
      obtain ⟨engrams, renamed, rfl⟩ := move_fresh stale done
      rcases Engrams.rename_ok renamed with ⟨-, rfl⟩ | ⟨row, permalink, -, -, rfl⟩
      · rfl
      · change ((applying.engrams.erase ends.1).insert ends.2 _).lookup path = _
        rw [AList.lookup_insert_ne fun same => apart (.inr same),
          AList.lookup_erase_ne fun same => apart (.inl same)]

/-- What a fresh move leaves at its two ends. -/
structure RowMoved (before after : Path → Option EngramRow) (ends : Path × Path) : Prop where
  gone : after ends.1 = none
  stands : ∀ row, before ends.1 = some row →
    ∃ permalink, after ends.2 = some { row with permalink := permalink }

theorem move_moves (apart : ends.1 ≠ ends.2) (fresh : moveStale live snapshot ends = false)
    (done : applying.move slugify live snapshot ends = .ok next) :
    RowMoved applying.engrams.lookup next.engrams.lookup ends := by
  obtain ⟨engrams, renamed, rfl⟩ := move_fresh fresh done
  rcases Engrams.rename_ok renamed with ⟨absent, rfl⟩ | ⟨row, permalink, found, -, rfl⟩
  · refine ⟨absent, fun row held => ?_⟩
    rw [absent] at held
    cases held
  · constructor
    · change ((applying.engrams.erase ends.1).insert ends.2 _).lookup ends.1 = _
      rw [AList.lookup_insert_ne apart, AList.lookup_erase]
    · intro other held
      obtain rfl := Option.some.inj (found.symm.trans held)
      exact ⟨permalink, AList.lookup_insert _⟩

theorem move_counts (done : applying.move slugify live snapshot ends = .ok next) :
    next.unseen = applying.unseen ∧
      next.report.deferred =
        applying.report.deferred + (moveStale live snapshot ends).toNat := by
  cases stale : moveStale live snapshot ends with
  | true =>
      rw [move_stale stale] at done
      obtain rfl := Except.ok.inj done
      exact ⟨rfl, rfl⟩
  | false =>
      obtain ⟨engrams, renamed, rfl⟩ := move_fresh stale done
      exact ⟨rfl, rfl⟩

variable {disk : Disk} {reflection : ReflectionMode} {keepUnseen : Bool}

/-- Whether a delete whose row was not written since is put off, because the
file is on disk. -/
def isBack (disk : Disk) (reflection : ReflectionMode) (path : Path) : Bool :=
  !neverEngram reflection path && disk.existsAt path

/-- Whether a delete takes its row. -/
def erases (disk : Disk) (live snapshot : Stamps) (reflection : ReflectionMode)
    (keepUnseen : Bool) (path : Path) : Bool :=
  !stampMoved live snapshot path && !isBack disk reflection path &&
    !(keepUnseen && !neverEngram reflection path)

/-- Whether a delete is kept for an unresolved host move, and counted. -/
def keeps (disk : Disk) (live snapshot : Stamps) (reflection : ReflectionMode)
    (keepUnseen : Bool) (path : Path) : Bool :=
  !stampMoved live snapshot path && !isBack disk reflection path &&
    (keepUnseen && !neverEngram reflection path)

theorem delete_engrams (applying : Applying) (path : Path) :
    (applying.delete disk live snapshot reflection keepUnseen path).engrams =
      if erases disk live snapshot reflection keepUnseen path then
        applying.engrams.erase path
      else applying.engrams := by
  unfold delete erases isBack
  cases stampMoved live snapshot path <;>
    cases neverEngram reflection path <;> cases disk.existsAt path <;>
      cases keepUnseen <;> rfl

theorem delete_unseen (applying : Applying) (path : Path) :
    (applying.delete disk live snapshot reflection keepUnseen path).unseen =
      applying.unseen + (keeps disk live snapshot reflection keepUnseen path).toNat := by
  unfold delete keeps isBack
  cases stampMoved live snapshot path <;>
    cases neverEngram reflection path <;> cases disk.existsAt path <;>
      cases keepUnseen <;> rfl

theorem delete_deferred (applying : Applying) (path : Path) :
    (applying.delete disk live snapshot reflection keepUnseen path).report.deferred =
      applying.report.deferred +
        (stampMoved live snapshot path || isBack disk reflection path).toNat := by
  unfold delete isBack
  cases stampMoved live snapshot path <;>
    cases neverEngram reflection path <;> cases disk.existsAt path <;>
      cases keepUnseen <;> rfl

theorem delete_alone {path other : Path} (apart : other ≠ path) :
    (applying.delete disk live snapshot reflection keepUnseen path).engrams.lookup other =
      applying.engrams.lookup other := by
  rw [delete_engrams]
  split
  · exact AList.lookup_erase_ne apart
  · rfl

variable {reader : Reader}

/-- The row a changed file is parsed to, when it reads and parses. -/
def parsedRow (reader : Reader) (disk : Disk) (change : PendingChange) : Option EngramRow := do
  let bytes ← (disk.read change.scanned.path).toOption
  let text ← fromUtf8 bytes
  let permalink ← (reader.permalink (toLf text) change.scanned.path).toOption
  return ⟨permalink, ⟨change.scanned.mtime, change.scanned.size, reader.sha256 bytes⟩, toLf text⟩

theorem write_engrams (applying : Applying) (change : PendingChange) (row : EngramRow) :
    (applying.write change row).engrams = applying.engrams ∨
      (applying.write change row).engrams =
        applying.engrams.insert change.scanned.path row := by
  unfold write
  cases done : applying.engrams.upsert change.scanned.path row with
  | error refused => exact .inl rfl
  | ok engrams => exact .inr (Engrams.upsert_ok done)

theorem write_counts (applying : Applying) (change : PendingChange) (row : EngramRow) :
    (applying.write change row).unseen = applying.unseen ∧
      (applying.write change row).report.deferred = applying.report.deferred := by
  unfold write
  cases applying.engrams.upsert change.scanned.path row with
  | error refused => exact ⟨rfl, rfl⟩
  | ok engrams => cases change.previouslyIndexed <;> exact ⟨rfl, rfl⟩

theorem parse_engrams (applying : Applying) (change : PendingChange) :
    (applying.parse reader disk change).engrams = applying.engrams ∨
      ∃ row, parsedRow reader disk change = some row ∧
        (applying.parse reader disk change).engrams =
          applying.engrams.insert change.scanned.path row := by
  unfold parse parsedRow
  cases disk.read change.scanned.path with
  | error refused => cases refused <;> exact .inl rfl
  | ok bytes =>
      dsimp only [Except.toOption, bind, Option.bind]
      cases fromUtf8 bytes with
      | none => exact .inl rfl
      | some text =>
          dsimp only
          cases reader.permalink (toLf text) change.scanned.path with
          | error refusal => exact .inl rfl
          | ok permalink =>
              rcases write_engrams applying change
                ⟨permalink, ⟨change.scanned.mtime, change.scanned.size, reader.sha256 bytes⟩,
                  toLf text⟩ with kept | written
              · exact .inl kept
              · exact .inr ⟨_, rfl, written⟩

theorem parse_counts (applying : Applying) (change : PendingChange) :
    (applying.parse reader disk change).unseen = applying.unseen ∧
      (applying.parse reader disk change).report.deferred = applying.report.deferred +
        (disk.read change.scanned.path = .error .notFound : Bool).toNat := by
  unfold parse
  cases disk.read change.scanned.path with
  | error refused => cases refused <;> exact ⟨rfl, rfl⟩
  | ok bytes =>
      dsimp only
      cases fromUtf8 bytes with
      | none => exact ⟨rfl, rfl⟩
      | some text =>
          dsimp only
          cases reader.permalink (toLf text) change.scanned.path with
          | error refusal => exact ⟨rfl, rfl⟩
          | ok permalink => exact write_counts _ _ _

/-- A change of a slab: put off when its row was written since, else parsed. -/
def guarded (reader : Reader) (disk : Disk) (live snapshot : Stamps) (applying : Applying)
    (change : PendingChange) : Applying :=
  if stampMoved live snapshot change.scanned.path then applying.defer
  else applying.parse reader disk change

theorem guarded_alone {change : PendingChange} {path : Path} (apart : path ≠ change.scanned.path) :
    (guarded reader disk live snapshot applying change).engrams.lookup path =
      applying.engrams.lookup path := by
  unfold guarded
  split
  · rfl
  · rcases @parse_engrams disk reader applying change with
      kept | ⟨row, -, written⟩
    · rw [kept]
    · rw [written, AList.lookup_insert_ne apart]

/-- The order in which the changes of all slabs are dealt with. -/
def arrivals (orders : Orders) (live snapshot : Stamps) (slabFiles : Nat)
    (changed : List PendingChange) : List PendingChange :=
  (slabs slabFiles changed).flatMap fun changes =>
    (changes.filter fun change => stampMoved live snapshot change.scanned.path) ++
      arrange orders.parsed (fun change => change.scanned.path)
        (changes.filter fun change => !stampMoved live snapshot change.scanned.path)

end Applying

variable {Item : Type*}

theorem slabsWithin_flatten {size : Nat} (positive : 0 < size) (bound : Nat) (items : List Item)
    (enough : items.length ≤ bound) : (slabsWithin size bound items).flatten = items := by
  induction bound generalizing items with
  | zero =>
      obtain rfl := List.length_eq_zero_iff.mp (Nat.le_zero.mp enough)
      rfl
  | succ bound induction =>
      cases items with
      | nil => rfl
      | cons item items =>
          have shorter : ((item :: items).drop size).length ≤ bound := by
            simp only [List.length_drop, List.length_cons] at enough ⊢
            omega
          change _ ++ (slabsWithin size bound ((item :: items).drop size)).flatten = _
          rw [induction _ shorter, List.take_append_drop]

theorem slabs_flatten (size : Nat) (items : List Item) : (slabs size items).flatten = items :=
  slabsWithin_flatten (by omega) _ _ le_rfl

namespace Applying

variable {reader : Reader} {disk : Disk} {orders : Orders} {live snapshot : Stamps}

theorem perm_arrivals (slabFiles : Nat) (changed : List PendingChange) :
    (arrivals orders live snapshot slabFiles changed).Perm changed := by
  conv_rhs => rw [← slabs_flatten slabFiles changed, ← List.flatMap_id]
  rw [arrivals]
  refine List.Perm.flatMap_left _ fun changes _ => ?_
  refine ((perm_arrange _ _ _).append_left _).trans ?_
  exact List.filter_append_perm _ _

theorem foldl_defer (stale : List PendingChange)
    (moved : ∀ change ∈ stale, stampMoved live snapshot change.scanned.path = true)
    (applying : Applying) :
    stale.foldl (fun applying _ => applying.defer) applying =
      stale.foldl (guarded reader disk live snapshot) applying := by
  induction stale generalizing applying with
  | nil => rfl
  | cons change stale induction =>
      rw [List.foldl_cons, List.foldl_cons,
        induction fun other member => moved other (List.mem_cons_of_mem _ member)]
      rw [guarded, if_pos (moved change List.mem_cons_self)]

theorem foldl_parse (fresh : List PendingChange)
    (unmoved : ∀ change ∈ fresh, stampMoved live snapshot change.scanned.path = false)
    (applying : Applying) :
    fresh.foldl (parse reader disk) applying =
      fresh.foldl (guarded reader disk live snapshot) applying := by
  induction fresh generalizing applying with
  | nil => rfl
  | cons change fresh induction =>
      rw [List.foldl_cons, List.foldl_cons,
        induction fun other member => unmoved other (List.mem_cons_of_mem _ member)]
      rw [guarded, unmoved change List.mem_cons_self]
      rfl

theorem foldl_slab (slabFiles : Nat) (changed : List PendingChange) (applying : Applying) :
    (slabs slabFiles changed).foldl (slab reader disk orders live snapshot) applying =
      (arrivals orders live snapshot slabFiles changed).foldl
        (guarded reader disk live snapshot) applying := by
  rw [arrivals, List.foldl_flatMap]
  refine List.foldl_ext _ _ _ fun applying changes _ => ?_
  have put := @foldl_defer reader disk live snapshot
    (changes.filter fun change => stampMoved live snapshot change.scanned.path)
    (fun change member => (List.mem_filter.mp member).2) applying
  have taken := @foldl_parse reader disk live snapshot
    (arrange orders.parsed (fun change => change.scanned.path)
      (changes.filter fun change => !stampMoved live snapshot change.scanned.path))
    (fun change member => by
      rw [mem_arrange, List.mem_filter] at member
      simpa using member.2)
  rw [List.foldl_append, ← put, ← taken]
  rfl

end Applying

/-- What both fronts hand to an apply: moves go from recorded paths to new
ones, deletes are recorded, and no path is in two of the lists. -/
structure DomainScan.WellFormed (scan : DomainScan) : Prop where
  sources : (scan.moves.map Prod.fst).Nodup
  targets : (scan.moves.map Prod.snd).Nodup
  deletes : scan.deletes.Nodup
  changes : (scan.changed.map fun change => change.scanned.path).Nodup
  sourceRecorded : ∀ ends ∈ scan.moves, (scan.snapshot.lookup ends.1).isSome
  targetNew : ∀ ends ∈ scan.moves, scan.snapshot.lookup ends.2 = none
  deleteRecorded : ∀ path ∈ scan.deletes, (scan.snapshot.lookup path).isSome
  deleteStays : ∀ path ∈ scan.deletes, path ∉ scan.moves.map Prod.fst
  changeApart : ∀ change ∈ scan.changed, change.scanned.path ∉ scan.deletes ∧
    change.scanned.path ∉ scan.moves.map Prod.fst ∧
    change.scanned.path ∉ scan.moves.map Prod.snd

namespace DomainScan.WellFormed

variable {scan : DomainScan}

theorem target_not_source (formed : scan.WellFormed) {left right : Path × Path}
    (first : left ∈ scan.moves) (second : right ∈ scan.moves) : left.1 ≠ right.2 := by
  intro same
  have recorded := formed.sourceRecorded left first
  rw [same, formed.targetNew right second] at recorded
  cases recorded

theorem target_not_delete (formed : scan.WellFormed) {ends : Path × Path}
    (member : ends ∈ scan.moves) : ends.2 ∉ scan.deletes := by
  intro deleted
  have recorded := formed.deleteRecorded ends.2 deleted
  rw [formed.targetNew ends member] at recorded
  cases recorded

theorem moves_apart (formed : scan.WellFormed) :
    scan.moves.Pairwise fun left right => ∀ path,
      path = left.1 ∨ path = left.2 → ¬ (path = right.1 ∨ path = right.2) := by
  have sources := formed.sources
  have targets := formed.targets
  rw [List.Nodup, List.pairwise_map] at sources targets
  refine (List.pairwise_iff_forall_sublist.mpr ?_)
  intro left right both
  have here : left ∈ scan.moves := both.subset (by simp)
  have there : right ∈ scan.moves := both.subset (by simp)
  have sourcesApart := List.pairwise_iff_forall_sublist.mp sources both
  have targetsApart := List.pairwise_iff_forall_sublist.mp targets both
  rintro path (rfl | rfl) (same | same)
  · exact sourcesApart same
  · exact formed.target_not_source here there same
  · exact formed.target_not_source there here same.symm
  · exact targetsApart same

end DomainScan.WellFormed

/-- The states an apply of the engram rows goes through. -/
structure Stages (reader : Reader) (disk : Disk) (orders : Orders) (slabFiles : Nat)
    (keepUnseen : Bool) (scan : DomainScan) (engrams : Engrams)
    (moved deleted final : Applying) : Prop where
  moving : Passes (fun before ends after =>
      Applying.move reader.slugify engrams.fileStamps scan.snapshot before ends = .ok after)
    ⟨engrams, 0, scan.report⟩ scan.moves moved
  deleting : Passes (fun before path after => after = before.delete disk engrams.fileStamps
      scan.snapshot scan.reflection keepUnseen path)
    moved (arrange orders.deleted id scan.deletes) deleted
  parsing : Passes (fun before change after =>
      after = Applying.guarded reader disk engrams.fileStamps scan.snapshot before change)
    deleted (Applying.arrivals orders engrams.fileStamps scan.snapshot slabFiles scan.changed)
    final

section Final

open Applying

variable {reader : Reader} {disk : Disk} {orders : Orders} {slabFiles : Nat}
  {keepUnseen : Bool} {scan : DomainScan} {engrams : Engrams}
  {moved deleted final : Applying}

theorem applyChanges_stages
    (done : applyChanges reader disk orders slabFiles keepUnseen scan engrams = .ok final) :
    ∃ moved deleted,
      Stages reader disk orders slabFiles keepUnseen scan engrams moved deleted final := by
  unfold applyChanges at done
  cases run : scan.moves.foldlM
      (Applying.move reader.slugify engrams.fileStamps scan.snapshot)
      ⟨engrams, 0, scan.report⟩ with
  | error refused =>
      dsimp only at done
      rw [run] at done
      cases done
  | ok moved =>
      dsimp only at done
      rw [run] at done
      obtain rfl := Except.ok.inj done
      rw [foldl_slab]
      exact ⟨moved, _, Passes.of_foldlM run, Passes.of_foldl _ _ _, Passes.of_foldl _ _ _⟩

namespace Stages

variable {path : Path}

section

variable (stages : Stages reader disk orders slabFiles keepUnseen scan engrams moved deleted final)
include stages

theorem moved_alone (notSource : path ∉ scan.moves.map Prod.fst)
    (notTarget : path ∉ scan.moves.map Prod.snd) :
    moved.engrams.lookup path = engrams.lookup path := by
  refine stages.moving.frame (fun applying path => applying.engrams.lookup path)
    (fun ends path => path = ends.1 ∨ path = ends.2) ?_ ?_
  · intro before ends after path done apart
    exact move_alone done apart
  · rintro ends member (rfl | rfl)
    · exact notSource (List.mem_map_of_mem member)
    · exact notTarget (List.mem_map_of_mem member)

theorem moved_ends (formed : scan.WellFormed) {ends : Path × Path} (member : ends ∈ scan.moves) :
    (moveStale engrams.fileStamps scan.snapshot ends = true ∧
      moved.engrams.lookup ends.1 = engrams.lookup ends.1 ∧
      moved.engrams.lookup ends.2 = engrams.lookup ends.2) ∨
    (moveStale engrams.fileStamps scan.snapshot ends = false ∧
      RowMoved engrams.lookup moved.engrams.lookup ends) := by
  obtain ⟨before, after, done, held⟩ := stages.moving.atItem
    (fun applying path => applying.engrams.lookup path)
    (fun ends path => path = ends.1 ∨ path = ends.2)
    (fun _ _ _ _ done apart => move_alone done apart) formed.moves_apart member
  have source := held ends.1 (.inl rfl)
  have target := held ends.2 (.inr rfl)
  cases stale : moveStale engrams.fileStamps scan.snapshot ends with
  | true =>
      rw [move_stale stale] at done
      obtain rfl := Except.ok.inj done
      exact .inl ⟨rfl, source.2.trans source.1, target.2.trans target.1⟩
  | false =>
      have rowMoved := move_moves (formed.target_not_source member member) stale done
      refine .inr ⟨rfl, source.2.trans rowMoved.gone, fun row found => ?_⟩
      obtain ⟨permalink, stands⟩ := rowMoved.stands row (source.1.trans found)
      exact ⟨permalink, target.2.trans stands⟩

theorem deleted_alone (apart : path ∉ scan.deletes) :
    deleted.engrams.lookup path = moved.engrams.lookup path := by
  refine stages.deleting.frame (fun applying path => applying.engrams.lookup path)
    (fun deleted path => path = deleted) ?_ ?_
  · rintro before deleted after path rfl other
    exact delete_alone other
  · rintro other member rfl
    exact apart (mem_arrange.mp member)

theorem deleted_at (formed : scan.WellFormed) (member : path ∈ scan.deletes) :
    deleted.engrams.lookup path =
      if erases disk engrams.fileStamps scan.snapshot scan.reflection keepUnseen path then none
      else moved.engrams.lookup path := by
  have apart : (arrange orders.deleted id scan.deletes).Nodup :=
    (perm_arrange _ _ _).nodup_iff.mpr formed.deletes
  obtain ⟨before, after, rfl, held⟩ := stages.deleting.atItem
    (fun applying path => applying.engrams.lookup path)
    (fun deleted path => path = deleted)
    (fun before deleted after path done other => by
      subst done
      exact delete_alone other)
    (apart.imp fun differ path here there => differ (here.symm.trans there))
    (mem_arrange.mpr member)
  obtain ⟨start, last⟩ := held path rfl
  rw [last, delete_engrams]
  split
  · rw [AList.lookup_erase]
  · exact start

theorem final_alone (apart : ∀ change ∈ scan.changed, change.scanned.path ≠ path) :
    final.engrams.lookup path = deleted.engrams.lookup path := by
  refine stages.parsing.frame (fun applying path => applying.engrams.lookup path)
    (fun change path => path = change.scanned.path) ?_ ?_
  · rintro before change after path rfl other
    exact guarded_alone other
  · rintro change member rfl
    exact apart change ((perm_arrivals _ _).mem_iff.mp member) rfl

/-- What the slabs leave at one changed file: its row as it was, or the row
parsed from it when nobody wrote it since. -/
theorem final_at (formed : scan.WellFormed) {change : PendingChange}
    (member : change ∈ scan.changed) :
    final.engrams.lookup change.scanned.path = engrams.lookup change.scanned.path ∨
      stampMoved engrams.fileStamps scan.snapshot change.scanned.path = false ∧
        ∃ row, parsedRow reader disk change = some row ∧
          final.engrams.lookup change.scanned.path = some row := by
  have changes := formed.changes
  have apart : ((arrivals orders engrams.fileStamps scan.snapshot slabFiles scan.changed).map
      fun change => change.scanned.path).Nodup :=
    ((perm_arrivals _ _).map _).nodup_iff.mpr changes
  rw [List.Nodup, List.pairwise_map] at apart
  obtain ⟨before, after, rfl, held⟩ := stages.parsing.atItem
    (fun applying path => applying.engrams.lookup path)
    (fun change path => path = change.scanned.path)
    (fun before change after path done other => by
      subst done
      exact guarded_alone other)
    (apart.imp fun differ path here there => differ (here.symm.trans there))
    ((perm_arrivals _ _).mem_iff.mpr member)
  obtain ⟨start, last⟩ := held change.scanned.path rfl
  obtain ⟨notDeleted, notSource, notTarget⟩ := formed.changeApart change member
  have unchanged : before.engrams.lookup change.scanned.path =
      engrams.lookup change.scanned.path := by
    rw [start, stages.deleted_alone notDeleted, stages.moved_alone notSource notTarget]
  unfold guarded at last
  split at last
  · exact .inl (last.trans unchanged)
  · next unmoved =>
    rcases @parse_engrams disk reader before change with kept | ⟨row, parsed, written⟩
    · rw [kept] at last
      exact .inl (last.trans unchanged)
    · rw [written, AList.lookup_insert] at last
      exact .inr ⟨by simpa using unmoved, row, parsed, last⟩

end

end Stages

variable {path : Path}

theorem lookup_untouched
    (done : applyChanges reader disk orders slabFiles keepUnseen scan engrams = .ok final)
    (notSource : path ∉ scan.moves.map Prod.fst) (notTarget : path ∉ scan.moves.map Prod.snd)
    (notDeleted : path ∉ scan.deletes)
    (notChanged : ∀ change ∈ scan.changed, change.scanned.path ≠ path) :
    final.engrams.lookup path = engrams.lookup path := by
  obtain ⟨moved, deleted, stages⟩ := applyChanges_stages done
  rw [stages.final_alone notChanged, stages.deleted_alone notDeleted,
    stages.moved_alone notSource notTarget]

section

variable (formed : scan.WellFormed)
  (done : applyChanges reader disk orders slabFiles keepUnseen scan engrams = .ok final)
include formed done

theorem lookup_ends {ends : Path × Path} (member : ends ∈ scan.moves) :
    (moveStale engrams.fileStamps scan.snapshot ends = true ∧
      final.engrams.lookup ends.1 = engrams.lookup ends.1 ∧
      final.engrams.lookup ends.2 = engrams.lookup ends.2) ∨
    (moveStale engrams.fileStamps scan.snapshot ends = false ∧
      RowMoved engrams.lookup final.engrams.lookup ends) := by
  obtain ⟨moved, deleted, stages⟩ := applyChanges_stages done
  have source : final.engrams.lookup ends.1 = moved.engrams.lookup ends.1 := by
    rw [stages.final_alone, stages.deleted_alone]
    · exact fun deleted => formed.deleteStays _ deleted (List.mem_map_of_mem member)
    · rintro change changed same
      exact (formed.changeApart change changed).2.1 (same ▸ List.mem_map_of_mem member)
  have target : final.engrams.lookup ends.2 = moved.engrams.lookup ends.2 := by
    rw [stages.final_alone, stages.deleted_alone]
    · exact formed.target_not_delete member
    · rintro change changed same
      exact (formed.changeApart change changed).2.2 (same ▸ List.mem_map_of_mem member)
  rcases stages.moved_ends formed member with ⟨stale, atSource, atTarget⟩ | ⟨fresh, rowMoved⟩
  · exact .inl ⟨stale, source.trans atSource, target.trans atTarget⟩
  · refine .inr ⟨fresh, source.trans rowMoved.gone, fun row found => ?_⟩
    obtain ⟨permalink, stands⟩ := rowMoved.stands row found
    exact ⟨permalink, target.trans stands⟩

theorem lookup_delete (member : path ∈ scan.deletes) :
    final.engrams.lookup path =
      if erases disk engrams.fileStamps scan.snapshot scan.reflection keepUnseen path then none
      else engrams.lookup path := by
  obtain ⟨moved, deleted, stages⟩ := applyChanges_stages done
  have notTarget : path ∉ scan.moves.map Prod.snd := by
    intro target
    obtain ⟨ends, moves, rfl⟩ := List.mem_map.mp target
    exact formed.target_not_delete moves member
  rw [stages.final_alone, stages.deleted_at formed member,
    stages.moved_alone (formed.deleteStays path member) notTarget]
  rintro change changed rfl
  exact (formed.changeApart change changed).1 member

theorem lookup_change {change : PendingChange} (member : change ∈ scan.changed) :
    final.engrams.lookup change.scanned.path = engrams.lookup change.scanned.path ∨
      stampMoved engrams.fileStamps scan.snapshot change.scanned.path = false ∧
        ∃ row, parsedRow reader disk change = some row ∧
          final.engrams.lookup change.scanned.path = some row := by
  obtain ⟨moved, deleted, stages⟩ := applyChanges_stages done
  exact stages.final_at formed member

/-- A row an apply takes away went to a new path, or was deleted. -/
theorem gone_engram {row : EngramRow} (held : engrams.lookup path = some row)
    (gone : final.engrams.lookup path = none) :
    (∃ target permalink, (path, target) ∈ scan.moves ∧
        moveStale engrams.fileStamps scan.snapshot (path, target) = false ∧
        final.engrams.lookup target = some { row with permalink := permalink }) ∨
      path ∈ scan.deletes ∧
        erases disk engrams.fileStamps scan.snapshot scan.reflection keepUnseen path = true := by
  by_cases source : path ∈ scan.moves.map Prod.fst
  · obtain ⟨⟨_, target⟩, member, rfl⟩ := List.mem_map.mp source
    rcases lookup_ends formed done member with ⟨-, kept, -⟩ | ⟨fresh, rowMoved⟩
    · rw [gone] at kept
      exact absurd (kept.trans held) (Option.some_ne_none row).symm
    · obtain ⟨permalink, stands⟩ := rowMoved.stands row held
      exact .inl ⟨target, permalink, member, fresh, stands⟩
  by_cases target : path ∈ scan.moves.map Prod.snd
  · obtain ⟨⟨source, _⟩, member, rfl⟩ := List.mem_map.mp target
    rcases lookup_ends formed done member with ⟨-, -, kept⟩ | ⟨fresh, -⟩
    · rw [gone] at kept
      exact absurd (kept.trans held) (Option.some_ne_none row).symm
    · -- a fresh move's target has no row
      have new := formed.targetNew _ member
      simp [moveStale, stampMoved, new, held] at fresh
  by_cases deleted : path ∈ scan.deletes
  · have outcome := lookup_delete formed done deleted
    split at outcome
    · next erased => exact .inr ⟨deleted, erased⟩
    · rw [gone] at outcome
      exact absurd (outcome.trans held) (Option.some_ne_none row).symm
  by_cases changed : ∃ change ∈ scan.changed, change.scanned.path = path
  · obtain ⟨change, member, rfl⟩ := changed
    rcases lookup_change formed done member with kept | ⟨-, other, -, written⟩
    · rw [gone] at kept
      exact absurd (kept.trans held) (Option.some_ne_none row).symm
    · rw [gone] at written
      exact absurd written (Option.some_ne_none other).symm
  · have kept := lookup_untouched done source target deleted
      fun change member same => changed ⟨change, member, same⟩
    rw [gone] at kept
    exact absurd (kept.trans held) (Option.some_ne_none row).symm

end

theorem unseen_final
    (done : applyChanges reader disk orders slabFiles keepUnseen scan engrams = .ok final) :
    final.unseen = (scan.deletes.map fun path =>
      (keeps disk engrams.fileStamps scan.snapshot scan.reflection keepUnseen path).toNat).sum := by
  obtain ⟨moved, deleted, stages⟩ := applyChanges_stages done
  have moving : moved.unseen = 0 := by
    refine stages.moving.keeps (fun applying => applying.unseen = 0)
      (fun before ends after _ done none => ?_) rfl
    rw [(move_counts done).1, none]
  have deleting := stages.deleting.counts Applying.unseen _ fun before path after done => by
    subst done
    exact delete_unseen before path
  have parsing : final.unseen = deleted.unseen := by
    refine stages.parsing.keeps (fun applying => applying.unseen = deleted.unseen)
      (fun before change after _ done same => ?_) rfl
    subst done
    unfold guarded
    split
    · exact same
    · rw [(parse_counts before change).1, same]
  rw [parsing, deleting, moving, Nat.zero_add]
  exact ((perm_arrange _ _ _).map _).sum_eq

end Final

end Crystalline.Sync
