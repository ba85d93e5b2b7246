import Crystalline.Text.Lines
import Crystalline.Text.Pieces

/-!
# Lines joined by line feeds

`splitNewline` and `joinLines` undo each other on lines without a line feed;
only the text of no lines is read back as one empty line.
-/

namespace Crystalline.Text

/-- `lines.join("\n")`. -/
def joinLines : List Text → Text
  | [] => []
  | line :: lines => line ++ joined '\n' lines

theorem splitNewline_eq (text : Text) : splitNewline text = splitMatches (· == '\n') text := by
  induction text with
  | nil => rfl
  | cons char text induction =>
      rw [splitNewline, splitMatches, induction]
      by_cases newline : char = '\n'
      · simp [newline]
      · cases splitMatches (· == '\n') text <;> simp [newline]

theorem splitNewline_ne_nil (text : Text) : splitNewline text ≠ [] := by
  rw [splitNewline_eq]
  exact splitMatches_ne_nil text

theorem newline_notMem_of_mem_splitNewline {text line : Text} (member : line ∈ splitNewline text) :
    '\n' ∉ line := by
  rw [splitNewline_eq] at member
  intro held
  have apart := separates_of_mem_splitMatches member '\n' held
  simp at apart

variable {line : Text}

theorem splitNewline_of_not_mem (absent : '\n' ∉ line) : splitNewline line = [line] := by
  rw [splitNewline_eq]
  apply splitMatches_of_absent
  intro char member
  rw [beq_eq_false_iff_ne]
  rintro rfl
  exact absent member

theorem splitNewline_append_cons (before after : Text) :
    splitNewline (before ++ '\n' :: after) = splitNewline before ++ splitNewline after := by
  rw [splitNewline_eq, splitNewline_eq, splitNewline_eq, splitMatches_append_cons (by simp)]

theorem splitNewline_cons_line (absent : '\n' ∉ line) (after : Text) :
    splitNewline (line ++ '\n' :: after) = line :: splitNewline after := by
  rw [splitNewline_append_cons, splitNewline_of_not_mem absent]
  rfl

/-- The lines of a text, joined, are the text. -/
@[simp] theorem joinLines_splitNewline (text : Text) : joinLines (splitNewline text) = text := by
  have whole := joined_splitMatches '\n' text
  rw [← splitNewline_eq] at whole
  cases cut : splitNewline text with
  | nil => exact absurd cut (splitNewline_ne_nil text)
  | cons line lines =>
      rw [cut] at whole
      exact (List.cons.inj whole).2

theorem splitNewline_joinLines {lines : List Text}
    (absent : ∀ other ∈ line :: lines, '\n' ∉ other) :
    splitNewline (joinLines (line :: lines)) = line :: lines := by
  rw [splitNewline_eq]
  exact splitMatches_joined absent

theorem joinLines_append {before after : List Text} (first : before ≠ []) (second : after ≠ []) :
    joinLines (before ++ after) = joinLines before ++ '\n' :: joinLines after := by
  cases before with
  | nil => exact absurd rfl first
  | cons line before =>
      cases after with
      | nil => exact absurd rfl second
      | cons next after => simp [joinLines, joined_append]

theorem joinLines_inj {left right : List Text} (leftAbsent : ∀ line ∈ left, '\n' ∉ line)
    (rightAbsent : ∀ line ∈ right, '\n' ∉ line) (leftBare : left ≠ [[]])
    (rightBare : right ≠ [[]]) (same : joinLines left = joinLines right) : left = right := by
  have empty : ∀ {lines : List Text}, (∀ line ∈ lines, '\n' ∉ line) → lines ≠ [[]] →
      joinLines lines = [] → lines = [] := by
    intro lines absent bare text
    cases lines with
    | nil => rfl
    | cons line lines =>
        have back := splitNewline_joinLines absent
        rw [text] at back
        exact absurd back.symm bare
  cases left with
  | nil => exact (empty rightAbsent rightBare same.symm).symm
  | cons line left =>
      cases right with
      | nil => exact empty leftAbsent leftBare same
      | cons other right =>
          rw [← splitNewline_joinLines leftAbsent, same, splitNewline_joinLines rightAbsent]

end Crystalline.Text
