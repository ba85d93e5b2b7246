import Mathlib.Data.List.Basic
import Mathlib.Order.Lattice

/-!
# Maps in key order

A map whose entries stand in ascending order of their keys is the list of them:
inserting its entries one by one, in that order, gives the map back.
-/

namespace Crystalline.Keyed

variable {κ : Type*} {α : Type*} [LinearOrder κ]

/-- A map, its entries in ascending order of their keys. -/
structure OrderedMap (κ : Type*) (α : Type*) [LinearOrder κ] where
  entries : List (κ × α)
  ascending : entries.Pairwise fun earlier later => earlier.1 < later.1

/-- An entry at its place; one of the same key is replaced. -/
def insertEntry (key : κ) (value : α) : List (κ × α) → List (κ × α)
  | [] => [(key, value)]
  | entry :: entries =>
      if key < entry.1 then (key, value) :: entry :: entries
      else if key = entry.1 then (key, value) :: entries
      else entry :: insertEntry key value entries

variable {entries : List (κ × α)}

theorem mem_insertEntry {key : κ} {value : α} {entry : κ × α}
    (member : entry ∈ insertEntry key value entries) : entry = (key, value) ∨ entry ∈ entries := by
  induction entries with
  | nil => exact .inl (List.mem_singleton.mp member)
  | cons first entries induction =>
      rw [insertEntry] at member
      split at member
      · exact List.mem_cons.mp member
      split at member
      · exact (List.mem_cons.mp member).imp_right (List.mem_cons_of_mem _)
      · rcases List.mem_cons.mp member with rfl | later
        · exact .inr List.mem_cons_self
        · exact (induction later).imp_right (List.mem_cons_of_mem _)

theorem pairwise_insertEntry (key : κ) (value : α)
    (ascending : entries.Pairwise fun earlier later => earlier.1 < later.1) :
    (insertEntry key value entries).Pairwise fun earlier later => earlier.1 < later.1 := by
  induction entries with
  | nil => exact List.pairwise_singleton _ _
  | cons first entries induction =>
      obtain ⟨ahead, rest⟩ := List.pairwise_cons.mp ascending
      rw [insertEntry]
      split
      next less =>
        refine List.pairwise_cons.mpr ⟨?_, ascending⟩
        intro other member
        rcases List.mem_cons.mp member with rfl | later
        · exact less
        · exact less.trans (ahead other later)
      next notLess =>
        split
        next same =>
          refine List.pairwise_cons.mpr ⟨?_, rest⟩
          intro other member
          rw [same]
          exact ahead other member
        next different =>
          refine List.pairwise_cons.mpr ⟨?_, induction rest⟩
          intro other member
          rcases mem_insertEntry member with rfl | later
          · exact lt_of_le_of_ne (not_lt.mp notLess) (Ne.symm different)
          · exact ahead other later

theorem insertEntry_last {key : κ} {value : α} (behind : ∀ entry ∈ entries, entry.1 < key) :
    insertEntry key value entries = entries ++ [(key, value)] := by
  induction entries with
  | nil => rfl
  | cons first entries induction =>
      have later := behind first List.mem_cons_self
      rw [insertEntry, if_neg later.asymm, if_neg later.ne',
        induction fun entry member => behind entry (List.mem_cons_of_mem _ member)]
      rfl

namespace OrderedMap

def empty : OrderedMap κ α := ⟨[], List.Pairwise.nil⟩

def insert (map : OrderedMap κ α) (key : κ) (value : α) : OrderedMap κ α :=
  ⟨insertEntry key value map.entries, pairwise_insertEntry key value map.ascending⟩

/-- The map collected from pairs; a later pair replaces an earlier one. -/
def collect (pairs : List (κ × α)) : OrderedMap κ α :=
  pairs.foldl (fun map pair => map.insert pair.1 pair.2) empty

def isEmpty (map : OrderedMap κ α) : Bool := map.entries.isEmpty

theorem ext_entries {left right : OrderedMap κ α} (same : left.entries = right.entries) :
    left = right := by
  obtain ⟨entries, ascending⟩ := left
  obtain rfl : entries = right.entries := same
  rfl

variable {map : OrderedMap κ α}

theorem eq_empty_of_isEmpty (none : map.isEmpty = true) : map = empty :=
  ext_entries (List.isEmpty_iff.mp none)

theorem entries_foldl_insert {pairs : List (κ × α)}
    (ascending : pairs.Pairwise fun earlier later => earlier.1 < later.1)
    (behind : ∀ entry ∈ map.entries, ∀ pair ∈ pairs, entry.1 < pair.1) :
    (pairs.foldl (fun map pair => map.insert pair.1 pair.2) map).entries =
      map.entries ++ pairs := by
  induction pairs generalizing map with
  | nil => simp
  | cons pair pairs induction =>
      obtain ⟨ahead, rest⟩ := List.pairwise_cons.mp ascending
      have last : (map.insert pair.1 pair.2).entries = map.entries ++ [pair] :=
        insertEntry_last fun entry member => behind entry member pair List.mem_cons_self
      have later : ∀ entry ∈ (map.insert pair.1 pair.2).entries, ∀ other ∈ pairs,
          entry.1 < other.1 := by
        intro entry member other inside
        rw [last] at member
        rcases List.mem_append.mp member with old | new
        · exact behind entry old other (List.mem_cons_of_mem _ inside)
        · rw [List.mem_singleton.mp new]
          exact ahead other inside
      rw [List.foldl_cons, induction rest later, last, List.append_assoc]
      rfl

theorem collect_entries (map : OrderedMap κ α) : collect map.entries = map := by
  apply ext_entries
  rw [collect, entries_foldl_insert map.ascending (by simp [empty])]
  rfl

end OrderedMap

end Crystalline.Keyed
