import Crystalline.Sync.ScanShape

/-!
# What a reconcile does to a file table

A row is left as it was, replaced by the row built from a file found, or
dropped; which rows are dropped is a question of what the walk saw.
-/

namespace Crystalline.Sync

open Keyed
open Remote (Path)

section

variable {Row : Type} {table : FileRows Row} {disk : Disk} {force : Bool}
  {existing : AList fun _ : Path => Row} {found : List FileCandidate} {deletes : List Path}
  {report : SyncReport}

namespace Reconciled

/-- Whether the stat of a candidate spares reading it. -/
def spared (table : FileRows Row) (force : Bool) (existing : AList fun _ : Path => Row)
    (candidate : FileCandidate) : Bool :=
  !force && (existing.lookup candidate.path).any
    fun row => table.stamp row = (candidate.size, rfc3339FromMtime candidate.mtime)

/-- The row a candidate is replaced by. -/
def builtRow (table : FileRows Row) (disk : Disk) (candidate : FileCandidate) : Option Row :=
  ((table.build disk candidate (rfc3339FromMtime candidate.mtime)).toOption).join

theorem take_rows (out : Reconciled Row) (candidate : FileCandidate) :
    (out.take table disk force existing candidate).rows =
      if spared table force existing candidate then out.rows
      else match builtRow table disk candidate with
        | some row => out.rows.insert candidate.path row
        | none => out.rows := by
  unfold take spared builtRow
  dsimp only
  split
  · rfl
  · cases table.build disk candidate (rfc3339FromMtime candidate.mtime) with
    | error refused => cases refused <;> rfl
    | ok row => cases row <;> rfl

theorem drop_rows (out : Reconciled Row) (path other : Path) :
    (out.drop path).rows.lookup other = if other = path then none else out.rows.lookup other := by
  unfold drop
  by_cases same : other = path
  · subst same
    rw [if_pos rfl]
    split
    · rw [AList.lookup_erase]
    · next absent => exact Option.not_isSome_iff_eq_none.mp absent
  · rw [if_neg same]
    split
    · exact AList.lookup_erase_ne same
    · rfl

theorem lookup_foldl_drop (paths : List Path) (out : Reconciled Row) (path : Path) :
    (paths.foldl drop out).rows.lookup path =
      if path ∈ paths then none else out.rows.lookup path := by
  induction paths generalizing out with
  | nil => simp
  | cons first paths induction =>
      rw [List.foldl_cons, induction, drop_rows]
      by_cases later : path ∈ paths <;> by_cases here : path = first <;> simp [later, here]

end Reconciled

open Reconciled

/-- The table once every candidate was taken. -/
def takenRows (table : FileRows Row) (disk : Disk) (force : Bool)
    (existing : AList fun _ : Path => Row) (found : List FileCandidate) (report : SyncReport) :
    Reconciled Row :=
  found.foldl (Reconciled.take table disk force existing) ⟨existing, 0, 0, report⟩

/-- A row once every candidate was taken: as it was, or built from one of them. -/
theorem lookup_takenRows (path : Path) :
    (takenRows table disk force existing found report).rows.lookup path =
        existing.lookup path ∨
      ∃ candidate ∈ found, candidate.path = path ∧ spared table force existing candidate = false ∧
        ∃ row, builtRow table disk candidate = some row ∧
          (takenRows table disk force existing found report).rows.lookup path = some row := by
  refine (Passes.of_foldl _ _ _).keeps
    (fun last : Reconciled Row => last.rows.lookup path = existing.lookup path ∨
      ∃ candidate ∈ found, candidate.path = path ∧ spared table force existing candidate = false ∧
        ∃ row, builtRow table disk candidate = some row ∧ last.rows.lookup path = some row)
    ?_ (.inl rfl)
  rintro before candidate after member rfl held
  rw [take_rows]
  split
  · exact held
  · next unspared =>
    split
    · next row built =>
      by_cases same : path = candidate.path
      · subst same
        exact .inr ⟨candidate, member, rfl, by simpa using unspared, row, built,
          AList.lookup_insert _⟩
      · rw [AList.lookup_insert_ne same]
        exact held
    · exact held

variable {path : Path}

theorem takenRows_keeps (recorded : existing.lookup path ≠ none) :
    (takenRows table disk force existing found report).rows.lookup path ≠ none := by
  rcases @lookup_takenRows Row table disk force existing found report path with
    kept | ⟨_, _, _, _, row, _, written⟩
  · rwa [kept]
  · rw [written]
    exact Option.some_ne_none row

theorem mem_unseenRows :
    path ∈ unseenRows existing found ↔
      existing.lookup path ≠ none ∧ ∀ candidate ∈ found, candidate.path ≠ path := by
  rw [unseenRows, List.mem_filter, ← AList.mem_keys, ← AList.lookup_isSome,
    Option.isSome_iff_ne_none]
  simp

theorem lookup_complete (path : Path) :
    (reconcileRows table disk existing found deletes .complete force report).rows.lookup path =
      if path ∈ unseenRows existing found then none
      else (takenRows table disk force existing found report).rows.lookup path :=
  lookup_foldl_drop _ _ _

theorem lookup_partly (path : Path) :
    (reconcileRows table disk existing found deletes .partly force report).rows.lookup path =
      if path ∈ deletes then none
      else (takenRows table disk force existing found report).rows.lookup path :=
  lookup_foldl_drop _ _ _

/-- While a host move stands no row is dropped, and the unseen ones are
counted. -/
theorem reconcile_keepUnseen :
    (reconcileRows table disk existing found deletes .keepUnseen force report).rows =
        (takenRows table disk force existing found report).rows ∧
      (reconcileRows table disk existing found deletes .keepUnseen force report).unseen =
        (unseenRows existing found).length := ⟨rfl, rfl⟩

/-- A row a reconcile of a walk took away was not seen, and the table was
complete and no host move stood. -/
theorem gone_of_walk {complete keepUnseen : Bool} (recorded : existing.lookup path ≠ none)
    (gone : (reconcileRows table disk existing found [] (.of complete keepUnseen) force
      report).rows.lookup path = none) :
    complete = true ∧ keepUnseen = false ∧ ∀ candidate ∈ found, candidate.path ≠ path := by
  cases complete with
  | false =>
      change (reconcileRows table disk existing found [] .partly force report).rows.lookup path =
        none at gone
      rw [lookup_partly, if_neg List.not_mem_nil] at gone
      exact absurd gone (takenRows_keeps recorded)
  | true =>
      cases keepUnseen with
      | true =>
          exact absurd gone (takenRows_keeps recorded)
      | false =>
          change (reconcileRows table disk existing found [] .complete force
            report).rows.lookup path = none at gone
          rw [lookup_complete] at gone
          split at gone
          · next unseen => exact ⟨rfl, rfl, (mem_unseenRows.mp unseen).2⟩
          · exact absurd gone (takenRows_keeps recorded)

theorem seen_of_uncounted (none : (reconcileRows table disk existing found deletes .keepUnseen force
      report).unseen = 0) (recorded : existing.lookup path ≠ .none) :
    ∃ candidate ∈ found, candidate.path = path := by
  by_contra unseen
  simp only [not_exists, not_and] at unseen
  have member : path ∈ unseenRows existing found := mem_unseenRows.mpr ⟨recorded, unseen⟩
  rw [reconcile_keepUnseen.2] at none
  exact absurd (List.length_eq_zero_iff.mp none ▸ member) List.not_mem_nil

end

end Crystalline.Sync
