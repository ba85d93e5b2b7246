import Crystalline.Text.Basic

/-!
# The pieces between separators

A text is its pieces with the separators between them, and pieces without a
separator are read back as they were joined.
-/

namespace Crystalline.Text

variable {separates other : Char → Bool}

theorem splitMatches_ne_nil (text : Text) : splitMatches separates text ≠ [] := by
  induction text with
  | nil => simp [splitMatches]
  | cons char text _ =>
      rw [splitMatches]
      split
      · simp
      · split <;> simp

variable {piece : Text}

theorem splitMatches_of_absent (absent : ∀ char ∈ piece, separates char = false) :
    splitMatches separates piece = [piece] := by
  induction piece with
  | nil => rfl
  | cons char piece induction =>
      have head := absent char List.mem_cons_self
      have tail := induction fun later member => absent later (List.mem_cons_of_mem _ member)
      rw [splitMatches, head, tail]
      rfl

/-- No piece holds a separator. -/
theorem separates_of_mem_splitMatches {text piece : Text}
    (member : piece ∈ splitMatches separates text) :
    ∀ char ∈ piece, separates char = false := by
  induction text generalizing piece with
  | nil =>
      rw [List.mem_singleton.mp member]
      simp
  | cons head text induction =>
      rw [splitMatches] at member
      split at member
      · rcases List.mem_cons.mp member with rfl | later
        · simp
        · exact induction later
      next other =>
        have apart : separates head = false := by simpa using other
        split at member
        · rw [List.mem_singleton.mp member]
          simpa using apart
        next first pieces cut =>
          rcases List.mem_cons.mp member with rfl | later
          · intro char inside
            rcases List.mem_cons.mp inside with rfl | tail
            · exact apart
            · exact induction (by simp [cut]) char tail
          · exact induction (by simp [cut, later])

theorem splitMatches_append_cons {between : Char} (separator : separates between = true)
    (before after : Text) :
    splitMatches separates (before ++ between :: after) =
      splitMatches separates before ++ splitMatches separates after := by
  induction before with
  | nil => simp [splitMatches, separator]
  | cons char before induction =>
      rw [List.cons_append, splitMatches, splitMatches, induction]
      cases separates char with
      | true => rfl
      | false =>
          cases cut : splitMatches separates before with
          | nil => exact absurd cut (splitMatches_ne_nil before)
          | cons piece pieces => rfl

theorem flatten_splitMatches (text : Text) :
    (splitMatches separates text).flatten = text.filter (!separates ·) := by
  induction text with
  | nil => rfl
  | cons char text induction =>
      rw [splitMatches]
      split
      next isSeparator => simpa [isSeparator] using induction
      next other =>
        have apart : separates char = false := by simpa using other
        split
        next empty => exact absurd empty (splitMatches_ne_nil text)
        next piece pieces cut =>
          rw [cut] at induction
          simpa [apart] using induction

theorem length_pieces_le (text : Text) :
    ((splitMatches separates text).filter (· ≠ [])).length ≤ text.length := by
  have pieces (pieces : List Text) : (pieces.filter (· ≠ [])).length ≤ pieces.flatten.length := by
    induction pieces with
    | nil => exact Nat.le_refl 0
    | cons piece pieces induction => cases piece <;> simp at induction ⊢ <;> omega
  calc ((splitMatches separates text).filter (· ≠ [])).length
      ≤ (splitMatches separates text).flatten.length := pieces _
    _ = (text.filter (!separates ·)).length := by rw [flatten_splitMatches]
    _ ≤ text.length := List.length_filter_le _ _

theorem splitMatches_congr {text : Text} (same : ∀ char ∈ text, separates char = other char) :
    splitMatches separates text = splitMatches other text := by
  induction text with
  | nil => rfl
  | cons char text induction =>
      have tail := induction fun later member => same later (List.mem_cons_of_mem _ member)
      rw [splitMatches, splitMatches, tail, same char List.mem_cons_self]

theorem rdropWhile_append_cons {Item : Type*} {drop : Item → Bool} {item : Item}
    (kept : drop item = false) (before after : List Item) :
    (before ++ item :: after).rdropWhile drop = before ++ item :: after.rdropWhile drop := by
  induction after using List.reverseRecOn with
  | nil => exact List.rdropWhile_concat_neg _ _ _ (by simp [kept])
  | append_singleton after last induction =>
      have whole : before ++ item :: (after ++ [last]) = (before ++ item :: after) ++ [last] := by
        simp
      cases dropped : drop last with
      | true =>
          rw [whole, List.rdropWhile_concat_pos _ _ _ dropped,
            List.rdropWhile_concat_pos _ _ _ dropped, induction]
      | false =>
          rw [whole, List.rdropWhile_concat_neg _ _ _ (by simp [dropped]),
            List.rdropWhile_concat_neg _ _ _ (by simp [dropped])]
          simp

/-- The text of pieces that each follow a separator. -/
def joined (between : Char) (pieces : List Text) : Text :=
  pieces.flatMap fun piece => between :: piece

section

variable (between : Char)
include between

@[simp] theorem joined_nil : joined between [] = [] := rfl

@[simp] theorem joined_cons (piece : Text) (pieces : List Text) :
    joined between (piece :: pieces) = between :: piece ++ joined between pieces := rfl

theorem joined_append (before after : List Text) :
    joined between (before ++ after) = joined between before ++ joined between after :=
  List.flatMap_append

theorem joined_splitMatches (text : Text) :
    joined between (splitMatches (· == between) text) = between :: text := by
  induction text with
  | nil => rfl
  | cons char text induction =>
      rw [splitMatches]
      by_cases same : char = between
      · subst same
        simp [induction]
      · rw [if_neg (by simpa using same)]
        cases cut : splitMatches (· == between) text with
        | nil => exact absurd cut (splitMatches_ne_nil text)
        | cons piece pieces =>
            rw [cut] at induction
            simpa using induction

end

theorem splitMatches_joined {between : Char} {pieces : List Text}
    (absent : ∀ inside ∈ piece :: pieces, between ∉ inside) :
    splitMatches (· == between) (piece ++ joined between pieces) = piece :: pieces := by
  have none : ∀ inside ∈ piece :: pieces, ∀ char ∈ inside, (char == between) = false := by
    intro inside member char held
    rw [beq_eq_false_iff_ne]
    rintro rfl
    exact absent inside member held
  induction pieces generalizing piece with
  | nil =>
      rw [joined_nil, List.append_nil]
      exact splitMatches_of_absent (none piece List.mem_cons_self)
  | cons next pieces induction =>
      have rest := @induction next
        (fun inside member => absent inside (List.mem_cons_of_mem _ member))
        (fun inside member => none inside (List.mem_cons_of_mem _ member))
      rw [joined_cons, List.cons_append, splitMatches_append_cons (by simp), rest,
        splitMatches_of_absent (none piece List.mem_cons_self)]
      rfl

end Crystalline.Text
