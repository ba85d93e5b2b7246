import Mathlib.Data.List.Basic
import Mathlib.Data.List.Induction
import Mathlib.Order.Lattice

/-!
# Groups under a key

A sorted map of lists, each entry pushed to the list of its key, holds one list for
every key that occurs: the items of that key in the order they were pushed.
-/

namespace Crystalline.Keyed

variable {κ : Type*} {α : Type*} [LinearOrder κ]

/-- `entry(key).or_default().push(item)` of a sorted map. -/
def push (key : κ) (item : α) : List (κ × List α) → List (κ × List α)
  | [] => [(key, [item])]
  | group :: groups =>
      if key < group.1 then (key, [item]) :: group :: groups
      else if key = group.1 then (group.1, group.2 ++ [item]) :: groups
      else group :: push key item groups

/-- The map after every push. -/
def grouped (entries : List (κ × α)) : List (κ × List α) :=
  entries.foldl (fun groups entry => push entry.1 entry.2 groups) []

/-- The items of one key, as they were pushed. -/
def itemsOf (key : κ) (entries : List (κ × α)) : List α :=
  (entries.filter fun entry => entry.1 = key).map Prod.snd

/-- A map of the pushes so far: its keys ascend, and each has all its items. -/
structure Grouping (entries : List (κ × α)) (groups : List (κ × List α)) : Prop where
  ascending : groups.Pairwise fun first second => first.1 < second.1
  holds : ∀ key items, (key, items) ∈ groups ↔ items = itemsOf key entries ∧ items ≠ []

variable {item : α} {groups : List (κ × List α)} {key : κ} {items : List α}

theorem mem_push_key {group : κ × List α} (member : group ∈ push key item groups) :
    group.1 = key ∨ group ∈ groups := by
  induction groups with
  | nil =>
      rw [List.mem_singleton.mp member]
      exact .inl rfl
  | cons first groups induction =>
      rw [push] at member
      split at member
      · rcases List.mem_cons.mp member with rfl | old
        · exact .inl rfl
        · exact .inr old
      split at member
      next same =>
        rcases List.mem_cons.mp member with rfl | old
        · exact .inl same.symm
        · exact .inr (List.mem_cons_of_mem _ old)
      · rcases List.mem_cons.mp member with rfl | old
        · exact .inr List.mem_cons_self
        · exact (induction old).imp_right (List.mem_cons_of_mem _)

theorem pairwise_push (ascending : groups.Pairwise fun first second => first.1 < second.1) :
    (push key item groups).Pairwise fun first second => first.1 < second.1 := by
  induction groups with
  | nil => exact List.pairwise_singleton _ _
  | cons group groups induction =>
      obtain ⟨ahead, rest⟩ := List.pairwise_cons.mp ascending
      rw [push]
      split
      next less =>
        refine List.pairwise_cons.mpr ⟨?_, ascending⟩
        intro other member
        rcases List.mem_cons.mp member with rfl | later
        · exact less
        · exact less.trans (ahead other later)
      next notLess =>
        split
        · exact List.pairwise_cons.mpr ⟨ahead, rest⟩
        next different =>
          refine List.pairwise_cons.mpr ⟨?_, induction rest⟩
          intro other member
          rcases mem_push_key member with same | later
          · rw [same]
            exact lt_of_le_of_ne (not_lt.mp notLess) (Ne.symm different)
          · exact ahead other later

theorem mem_push_of_ne {key other : κ} (different : other ≠ key) :
    (other, items) ∈ push key item groups ↔ (other, items) ∈ groups := by
  induction groups with
  | nil => simp [push, different]
  | cons group groups induction =>
      rw [push]
      split
      · simp [different]
      split
      next same =>
        have apart : other ≠ group.1 := fun equal => different (equal.trans same.symm)
        simp [Prod.ext_iff, apart]
      · rw [List.mem_cons, List.mem_cons, induction]

/-- The group of the key grows by the item, or begins with it. -/
theorem mem_push_self (ascending : groups.Pairwise fun first second => first.1 < second.1) :
    (key, items) ∈ push key item groups ↔
      (∃ before, (key, before) ∈ groups ∧ items = before ++ [item]) ∨
        ((∀ group ∈ groups, group.1 ≠ key) ∧ items = [item]) := by
  induction groups with
  | nil => simp [push]
  | cons group groups induction =>
      obtain ⟨ahead, rest⟩ := List.pairwise_cons.mp ascending
      rw [push]
      split
      next less =>
        have absent : ∀ other ∈ group :: groups, other.1 ≠ key := by
          intro other member
          rcases List.mem_cons.mp member with rfl | later
          · exact less.ne'
          · exact (less.trans (ahead other later)).ne'
        constructor
        · intro member
          rcases List.mem_cons.mp member with same | old
          · exact .inr ⟨absent, (Prod.mk.inj same).2⟩
          · exact absurd rfl (absent _ old)
        · rintro (⟨before, old, rfl⟩ | ⟨-, rfl⟩)
          · exact absurd rfl (absent _ old)
          · exact List.mem_cons_self
      next =>
        split
        next same =>
          have alone : ∀ other ∈ groups, other.1 ≠ key := by
            intro other later equal
            have less := ahead other later
            rw [equal, same] at less
            exact lt_irrefl _ less
          constructor
          · intro member
            rcases List.mem_cons.mp member with grown | old
            · refine .inl ⟨group.2, ?_, (Prod.mk.inj grown).2⟩
              rw [same]
              exact List.mem_cons_self
            · exact absurd rfl (alone _ old)
          · rintro (⟨before, old, rfl⟩ | ⟨absent, -⟩)
            · rcases List.mem_cons.mp old with here | later
              · rw [← here, same]
                exact List.mem_cons_self
              · exact absurd rfl (alone _ later)
            · exact absurd same.symm (absent group List.mem_cons_self)
        next different =>
          have elsewhere (items : List α) : (key, items) ≠ group := by
            rintro rfl
            exact different rfl
          simp [elsewhere, induction rest, Ne.symm different]

theorem itemsOf_append (key : κ) (before after : List (κ × α)) :
    itemsOf key (before ++ after) = itemsOf key before ++ itemsOf key after := by
  rw [itemsOf, List.filter_append, List.map_append]
  rfl

theorem Grouping.push {entries : List (κ × α)} (grouping : Grouping entries groups)
    (entry : κ × α) :
    Grouping (entries ++ [entry]) (push entry.1 entry.2 groups) where
  ascending := pairwise_push grouping.ascending
  holds key items := by
    rw [itemsOf_append]
    by_cases same : key = entry.1
    · have own : itemsOf key [entry] = [entry.2] := by simp [itemsOf, same]
      rw [own, same, mem_push_self grouping.ascending]
      constructor
      · rintro (⟨before, old, rfl⟩ | ⟨absent, rfl⟩)
        · rw [((grouping.holds _ _).mp old).1]
          simp
        · have empty : itemsOf entry.1 entries = [] := by
            by_contra present
            exact absent _ ((grouping.holds _ _).mpr ⟨rfl, present⟩) rfl
          rw [empty]
          simp
      · rintro ⟨rfl, -⟩
        by_cases empty : itemsOf entry.1 entries = []
        · refine .inr ⟨?_, by rw [empty, List.nil_append]⟩
          rintro ⟨key, items⟩ member rfl
          obtain ⟨rfl, present⟩ := (grouping.holds _ _).mp member
          exact present empty
        · exact .inl ⟨_, (grouping.holds _ _).mpr ⟨rfl, empty⟩, rfl⟩
    · have none : itemsOf key [entry] = [] := by simp [itemsOf, Ne.symm same]
      rw [none, List.append_nil, mem_push_of_ne same]
      exact grouping.holds key items

theorem grouping_grouped (entries : List (κ × α)) : Grouping entries (grouped entries) := by
  induction entries using List.reverseRecOn with
  | nil => exact ⟨List.Pairwise.nil, by simp [grouped, itemsOf]⟩
  | append_singleton entries entry induction =>
      rw [grouped, List.foldl_append]
      exact induction.push entry

end Crystalline.Keyed
