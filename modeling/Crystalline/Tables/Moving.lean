import Mathlib.Data.List.Basic

/-!
# Moving an item of a list

One item is taken out and put back at another place.  Every place of the list then
holds the item of one place of the list before, whatever the list holds, and moving
the item back gives the list before.
-/

namespace Crystalline.Moving

variable {α β : Type*}

/-- The list with the item at `place` taken out and put in at `target`. -/
def moved (place target : Nat) (items : List α) : List α :=
  match items[place]? with
  | some item => (items.eraseIdx place).insertIdx target item
  | none => items

/-- Where the item comes from that is at `index` afterwards. -/
def source (place target index : Nat) : Nat :=
  if index = target then place
  else if place ≤ index ∧ index < target then index + 1
  else if target < index ∧ index ≤ place then index - 1
  else index

theorem source_source (place target index : Nat) :
    source place target (source target place index) = index := by
  unfold source
  split_ifs <;> omega

theorem source_lt {place target count index : Nat} (inPlace : place < count)
    (inTarget : target < count) (within : index < count) :
    source place target index < count := by
  unfold source
  split_ifs <;> omega

variable {place target : Nat} {items : List α}

theorem moved_eq (within : place < items.length) :
    moved place target items = (items.eraseIdx place).insertIdx target items[place] := by
  rw [moved, List.getElem?_eq_getElem within]

section

variable (inPlace : place < items.length) (inTarget : target < items.length)
include inPlace inTarget

theorem length_moved : (moved place target items).length = items.length := by
  rw [moved_eq inPlace, List.length_insertIdx_of_le_length, List.length_eraseIdx_of_lt inPlace]
  · omega
  · rw [List.length_eraseIdx_of_lt inPlace]
    omega

theorem getElem?_moved (index : Nat) :
    (moved place target items)[index]? = items[source place target index]? := by
  have length : (items.eraseIdx place).length = items.length - 1 :=
    List.length_eraseIdx_of_lt inPlace
  rw [moved_eq inPlace, source]
  rcases Nat.lt_trichotomy index target with below | same | above
  · rw [List.getElem?_insertIdx_of_lt below, List.getElem?_eraseIdx]
    split_ifs <;> first | rfl | omega
  · rw [same, List.getElem?_insertIdx_self, if_pos (by omega), if_pos rfl,
      List.getElem?_eq_getElem inPlace]
  · rw [List.getElem?_insertIdx_of_gt above, List.getElem?_eraseIdx]
    split_ifs <;> first | rfl | omega | (congr 1; omega)

theorem moved_moved : moved target place (moved place target items) = items := by
  have length := length_moved inPlace inTarget
  apply List.ext_getElem?
  intro index
  rw [getElem?_moved (by omega) (by omega), getElem?_moved inPlace inTarget, source_source]

end

theorem map_moved (change : α → β) (place target : Nat) (inPlace : place < items.length)
    (inTarget : target < items.length) :
    (moved place target items).map change = moved place target (items.map change) := by
  apply List.ext_getElem?
  intro index
  rw [List.getElem?_map, getElem?_moved inPlace inTarget,
    getElem?_moved (by rwa [List.length_map]) (by rwa [List.length_map]), List.getElem?_map]

theorem mem_of_mem_moved (inPlace : place < items.length) (inTarget : target < items.length)
    {item : α} (member : item ∈ moved place target items) : item ∈ items := by
  obtain ⟨index, found⟩ := List.mem_iff_getElem?.mp member
  rw [getElem?_moved inPlace inTarget] at found
  exact List.mem_of_getElem? found

theorem moved_last (items : List α) (last : α) :
    moved items.length 0 (items ++ [last]) = last :: items := by
  rw [moved_eq (by simp), List.eraseIdx_append_of_length_le (Nat.le_refl _)]
  simp

theorem moved_first (first : α) (items : List α) :
    moved 0 items.length (first :: items) = items ++ [first] := by
  rw [moved_eq (by simp)]
  simp

/-- A move within a part of a list. -/
theorem moved_within {front middle : List α} (back : List α) (inPlace : place < middle.length)
    (inTarget : target < middle.length) :
    moved (front.length + place) (front.length + target) (front ++ middle ++ back) =
      front ++ moved place target middle ++ back := by
  have length := length_moved inPlace inTarget
  have long : (front ++ middle ++ back).length =
      front.length + middle.length + back.length := by
    rw [List.length_append, List.length_append]
  apply List.ext_getElem?
  intro index
  rw [getElem?_moved (by omega) (by omega)]
  rcases Nat.lt_or_ge index front.length with before | after
  · have same : source (front.length + place) (front.length + target) index = index := by
      unfold source
      split_ifs <;> omega
    rw [same, List.append_assoc, List.append_assoc, List.getElem?_append_left before,
      List.getElem?_append_left before]
  · obtain ⟨offset, rfl⟩ := Nat.exists_eq_add_of_le after
    have shifted : source (front.length + place) (front.length + target)
        (front.length + offset) = front.length + source place target offset := by
      unfold source
      split_ifs <;> omega
    rw [shifted, List.append_assoc, List.append_assoc,
      List.getElem?_append_right (Nat.le_add_right _ _),
      List.getElem?_append_right (Nat.le_add_right _ _), Nat.add_sub_cancel_left,
      Nat.add_sub_cancel_left]
    rcases Nat.lt_or_ge offset middle.length with inside | beyond
    · rw [List.getElem?_append_left (source_lt inPlace inTarget inside),
        List.getElem?_append_left (by omega), getElem?_moved inPlace inTarget]
    · have same : source place target offset = offset := by
        unfold source
        split_ifs <;> omega
      rw [same, List.getElem?_append_right beyond, List.getElem?_append_right (by omega), length]

end Crystalline.Moving
