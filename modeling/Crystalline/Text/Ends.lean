import Mathlib.Data.List.DropRight

/-!
# The ends and parts of a list

What is left of a list once the items at its ends are dropped, and its parts between
separators.
-/

namespace Crystalline.Ends

variable {α : Type*} {holds : α → Bool} {items : List α}

theorem not_of_getLast?_rdropWhile {item : α} (found : item ∈ (items.rdropWhile holds).getLast?) :
    holds item = false := by
  obtain ⟨front, same⟩ := List.getLast?_eq_some_iff.mp found
  have again := List.rdropWhile_idempotent holds items
  rw [same] at again
  have other := List.rdropWhile_eq_self_iff.mp again (by simp)
  rw [List.getLast_concat] at other
  exact Bool.eq_false_iff.mpr other

theorem not_of_head?_rdropWhile {item : α}
    (found : item ∈ ((items.dropWhile holds).rdropWhile holds).head?) : holds item = false := by
  obtain ⟨back, same⟩ := List.rdropWhile_prefix holds (items.dropWhile holds)
  have first : ((items.dropWhile holds).rdropWhile holds).head? = some item := found
  have stops := List.head?_dropWhile_not holds items
  rw [← same, List.head?_append, first] at stops
  exact stops

theorem dropWhile_eq_self (first : ∀ item ∈ items.head?, holds item = false) :
    items.dropWhile holds = items := by
  cases items with
  | nil => rfl
  | cons item items => exact List.dropWhile_cons_of_neg (by rw [first item rfl]; decide)

theorem rdropWhile_eq_self (last : ∀ item ∈ items.getLast?, holds item = false) :
    items.rdropWhile holds = items := by
  apply List.rdropWhile_eq_self_iff.mpr
  intro present held
  rw [last _ (List.getLast?_eq_some_getLast present)] at held
  cases held

theorem rdropWhile_append {items more : List α} (held : ∀ item ∈ more, holds item = true) :
    (items ++ more).rdropWhile holds = items.rdropWhile holds := by
  induction more using List.reverseRecOn with
  | nil => rw [List.append_nil]
  | append_singleton more item induction =>
      rw [← List.append_assoc, List.rdropWhile_concat_pos _ _ _ (held item (by simp))]
      exact induction fun other member => held other (by simp [member])

/-- No part of a list cut at a separator holds it. -/
theorem not_mem_of_mem_splitOn [BEq α] [LawfulBEq α] {mark : α} {part : List α}
    (member : part ∈ items.splitOn mark) : mark ∉ part := by
  induction items generalizing part with
  | nil =>
      rw [List.splitOn_nil, List.mem_singleton] at member
      rw [member]
      exact List.not_mem_nil
  | cons item items induction =>
      rw [List.splitOn_cons_eq_if_modifyHead] at member
      split at member
      · rcases List.mem_cons.mp member with rfl | later
        · exact List.not_mem_nil
        · exact induction later
      · rename_i other
        cases parts : items.splitOn mark with
        | nil => simp [parts] at member
        | cons first rest =>
            rw [parts] at member induction
            rcases List.mem_cons.mp member with rfl | later
            · intro within
              rcases List.mem_cons.mp within with rfl | deeper
              · simp at other
              · exact induction List.mem_cons_self deeper
            · exact induction (List.mem_cons_of_mem _ later)

end Crystalline.Ends
