import Crystalline.Text.Basic

/-!
# Cutting a text into lines

`splitInclusive` keeps each line feed with the line it ends, so the pieces
concatenate back to the text.  A text whose last line is ended too is called
terminated; terminated texts cut and concatenate independently of each other.
-/

namespace Crystalline.Text

/-- `str::split_inclusive('\n')`. -/
def splitInclusive : Text → List Text
  | [] => []
  | char :: text =>
      if char = '\n' then [char] :: splitInclusive text
      else
        match splitInclusive text with
        | [] => [[char]]
        | line :: lines => (char :: line) :: lines

/-- `str::split('\n')`. -/
def splitNewline : Text → List Text
  | [] => [[]]
  | char :: text =>
      if char = '\n' then [] :: splitNewline text
      else
        match splitNewline text with
        | [] => [[char]]
        | line :: lines => (char :: line) :: lines

/-- A line without the line feed that ends it. -/
def withoutNewline (line : Text) : Text := (stripSuffix ['\n'] line).getD line

/-- One piece of `str::lines`: a carriage return goes with the line feed
after it, and stays where there is none. -/
def lineBody (line : Text) : Text :=
  match stripSuffix ['\n'] line with
  | none => line
  | some body => (stripSuffix ['\r'] body).getD body

/-- `str::lines`. -/
def lines (text : Text) : List Text := (splitInclusive text).map lineBody

/-- A line feed ends the line, and it holds no other. -/
def IsLine (line : Text) : Prop := ∃ body, '\n' ∉ body ∧ line = body ++ ['\n']

/-- Every line of the text is ended. -/
def Terminated (text : Text) : Prop := ∀ line ∈ splitInclusive text, IsLine line

theorem isLine_snoc {body : Text} (absent : '\n' ∉ body) :
    IsLine (body ++ ['\n']) :=
  ⟨body, absent, rfl⟩

variable {line : Text} {pieces : List Text}

theorem IsLine.ne_nil (isLine : IsLine line) : line ≠ [] := by
  obtain ⟨body, -, rfl⟩ := isLine
  simp

@[simp] theorem withoutNewline_snoc (body : Text) :
    withoutNewline (body ++ ['\n']) = body := by
  rw [withoutNewline, stripSuffix_eq_some_iff.mpr rfl, Option.getD_some]

theorem withoutNewline_of_not_mem (absent : '\n' ∉ line) : withoutNewline line = line := by
  cases found : stripSuffix ['\n'] line with
  | none => simp [withoutNewline, found]
  | some body =>
      rw [stripSuffix_eq_some_iff.mp found] at absent
      simp at absent

theorem splitInclusive_of_not_mem {text : Text} (absent : '\n' ∉ text)
    (nonempty : text ≠ []) : splitInclusive text = [text] := by
  induction text with
  | nil => exact (nonempty rfl).elim
  | cons char text ih =>
      have different : char ≠ '\n' := fun same => absent (by simp [same])
      cases text with
      | nil => simp [splitInclusive, different]
      | cons next text =>
          have tail := ih (fun member => absent (List.mem_cons_of_mem _ member))
            (by simp)
          rw [splitInclusive, if_neg different, tail]

theorem splitInclusive_body_append {body : Text} (absent : '\n' ∉ body) (rest : Text) :
    splitInclusive (body ++ '\n' :: rest) =
      (body ++ ['\n']) :: splitInclusive rest := by
  induction body with
  | nil => simp [splitInclusive]
  | cons char body ih =>
      have different : char ≠ '\n' := fun same => absent (by simp [same])
      have tail := ih fun member => absent (List.mem_cons_of_mem _ member)
      rw [List.cons_append, splitInclusive, if_neg different, tail]
      rfl

theorem splitInclusive_line_append (isLine : IsLine line) (rest : Text) :
    splitInclusive (line ++ rest) = line :: splitInclusive rest := by
  obtain ⟨body, absent, rfl⟩ := isLine
  simpa using splitInclusive_body_append absent rest

theorem splitInclusive_flatten_append (areLines : ∀ line ∈ pieces, IsLine line) (rest : Text) :
    splitInclusive (pieces.flatten ++ rest) = pieces ++ splitInclusive rest := by
  induction pieces with
  | nil => rfl
  | cons line pieces ih =>
      have tail := ih fun other member =>
        areLines other (List.mem_cons_of_mem _ member)
      rw [List.flatten_cons, List.append_assoc,
        splitInclusive_line_append (areLines line (by simp)), tail,
        List.cons_append]

theorem splitInclusive_flatten_of_lines (areLines : ∀ line ∈ pieces, IsLine line) :
    splitInclusive pieces.flatten = pieces := by
  simpa [splitInclusive] using splitInclusive_flatten_append areLines []

/-- The pieces concatenate back to the text. -/
@[simp] theorem flatten_splitInclusive (text : Text) :
    (splitInclusive text).flatten = text := by
  induction text with
  | nil => rfl
  | cons char text ih =>
      rw [splitInclusive]
      split
      · simp [ih]
      · cases pieces : splitInclusive text with
        | nil => simpa [pieces] using ih
        | cons line lines => simpa [pieces] using ih

/-- Every text is some ended lines and a rest without a line feed. -/
theorem exists_lines_append (text : Text) :
    ∃ (pieces : List Text) (rest : Text),
      (∀ line ∈ pieces, IsLine line) ∧ '\n' ∉ rest ∧
      text = pieces.flatten ++ rest := by
  induction text with
  | nil => exact ⟨[], [], by simp, by simp, rfl⟩
  | cons char text ih =>
      obtain ⟨pieces, rest, areLines, absent, rfl⟩ := ih
      by_cases newline : char = '\n'
      · subst newline
        refine ⟨['\n'] :: pieces, rest, ?_, absent, by simp⟩
        intro line member
        rcases List.mem_cons.mp member with rfl | later
        · exact ⟨[], by simp, rfl⟩
        · exact areLines line later
      · cases pieces with
        | nil => exact ⟨[], char :: rest, by simp, by simp [Ne.symm newline, absent], rfl⟩
        | cons line pieces =>
            obtain ⟨body, bodyAbsent, rfl⟩ := areLines line (by simp)
            refine ⟨((char :: body) ++ ['\n']) :: pieces, rest, ?_, absent,
              by simp⟩
            intro other member
            rcases List.mem_cons.mp member with rfl | later
            · exact isLine_snoc (by simp [Ne.symm newline, bodyAbsent])
            · exact areLines other (List.mem_cons_of_mem _ later)

@[simp] theorem terminated_nil : Terminated [] := by
  simp [Terminated, splitInclusive]

theorem terminated_flatten (areLines : ∀ line ∈ pieces, IsLine line) :
    Terminated pieces.flatten := by
  rw [Terminated, splitInclusive_flatten_of_lines areLines]
  exact areLines

theorem IsLine.terminated (isLine : IsLine line) : Terminated line := by
  have areLines : ∀ piece ∈ [line], IsLine piece := by simpa using isLine
  simpa using terminated_flatten areLines

theorem splitInclusive_append {left : Text} (terminated : Terminated left) (right : Text) :
    splitInclusive (left ++ right) = splitInclusive left ++ splitInclusive right := by
  simpa using splitInclusive_flatten_append terminated right

theorem Terminated.append {left right : Text} (leftEnded : Terminated left)
    (rightEnded : Terminated right) : Terminated (left ++ right) := by
  intro line member
  rw [splitInclusive_append leftEnded] at member
  exact (List.mem_append.mp member).elim (leftEnded line) (rightEnded line)

theorem Terminated.flatten {texts : List Text}
    (ended : ∀ text ∈ texts, Terminated text) : Terminated texts.flatten := by
  induction texts with
  | nil => exact terminated_nil
  | cons text texts ih =>
      exact (ended text (by simp)).append
        (ih fun other member => ended other (List.mem_cons_of_mem _ member))

theorem terminated_iff_getLast? {text : Text} :
    Terminated text ↔ text = [] ∨ text.getLast? = some '\n' := by
  obtain ⟨pieces, rest, areLines, absent, rfl⟩ := exists_lines_append text
  cases rest with
  | nil =>
      simp only [List.append_nil]
      refine iff_of_true (terminated_flatten areLines) ?_
      cases pieces using List.reverseRecOn with
      | nil => simp
      | append_singleton pieces last _ =>
          obtain ⟨body, -, rfl⟩ := areLines last (by simp)
          right
          simp [List.getLast?_append]
  | cons char rest =>
      refine iff_of_false ?_ ?_
      · intro terminated
        rw [Terminated, splitInclusive_flatten_append areLines,
          splitInclusive_of_not_mem absent (by simp)] at terminated
        obtain ⟨body, -, equality⟩ := terminated (char :: rest) (by simp)
        exact absent (by simp [equality])
      · rintro (empty | last)
        · simp at empty
        · rw [List.getLast?_append_of_ne_nil _ (by simp)] at last
          exact absent (List.mem_of_getLast? last)

theorem terminated_snoc (body : Text) : Terminated (body ++ ['\n']) :=
  terminated_iff_getLast?.mpr (Or.inr (by simp))

/-- The pieces of a text are its ended lines and, when a rest follows them,
that rest. -/
theorem splitInclusive_eq_of_lines {rest : Text} (areLines : ∀ line ∈ pieces, IsLine line)
    (absent : '\n' ∉ rest) :
    splitInclusive (pieces.flatten ++ rest) =
      pieces ++ (if rest = [] then [] else [rest]) := by
  rw [splitInclusive_flatten_append areLines]
  split
  · next empty => simp [empty, splitInclusive]
  · next nonempty => rw [splitInclusive_of_not_mem absent nonempty]

section

variable {text line : Text}

theorem isLine_of_splitInclusive_eq_append {before after : List Text}
    (pieces : splitInclusive text = before ++ line :: after) :
    (∀ other ∈ before, IsLine other) ∧
      (IsLine line ∨ '\n' ∉ line ∧ line ≠ [] ∧ after = []) := by
  obtain ⟨ended, rest, areLines, absent, rfl⟩ := exists_lines_append text
  rw [splitInclusive_eq_of_lines areLines absent] at pieces
  by_cases empty : rest = []
  · simp only [empty, if_true, List.append_nil] at pieces
    subst pieces
    exact ⟨fun other member => areLines other (by simp [member]),
      Or.inl (areLines line (by simp))⟩
  · rw [if_neg empty] at pieces
    rcases List.eq_nil_or_concat after with rfl | ⟨front, last, rfl⟩
    · obtain ⟨rfl, same⟩ := List.append_inj' pieces rfl
      obtain rfl : rest = line := by simpa using same
      exact ⟨areLines, Or.inr ⟨absent, empty, rfl⟩⟩
    · have shape : before ++ line :: (front ++ [last]) =
          (before ++ line :: front) ++ [last] := by simp
      rw [List.concat_eq_append, shape] at pieces
      obtain ⟨rfl, -⟩ := List.append_inj' pieces rfl
      exact ⟨fun other member => areLines other (by simp [member]),
        Or.inl (areLines line (by simp))⟩

theorem newline_notMem_lineBody (member : line ∈ splitInclusive text) : '\n' ∉ lineBody line := by
  obtain ⟨before, after, pieces⟩ := List.append_of_mem member
  have shape := (isLine_of_splitInclusive_eq_append pieces).2
  rcases shape with isLine | ⟨absent, -, -⟩
  · obtain ⟨body, absent, rfl⟩ := isLine
    rw [lineBody, stripSuffix_eq_some_iff.mpr rfl]
    cases found : stripSuffix ['\r'] body with
    | none => simpa [found] using absent
    | some rest =>
        rw [stripSuffix_eq_some_iff.mp found] at absent
        simpa [found] using absent
  · cases found : stripSuffix ['\n'] line with
    | none => simpa [lineBody, found] using absent
    | some body =>
        rw [stripSuffix_eq_some_iff.mp found] at absent
        simp at absent

theorem newline_notMem_of_mem_lines (member : line ∈ lines text) : '\n' ∉ line := by
  obtain ⟨piece, pieceMember, rfl⟩ := List.mem_map.mp member
  exact newline_notMem_lineBody pieceMember

end

theorem lines_append {left : Text} (terminated : Terminated left) (right : Text) :
    lines (left ++ right) = lines left ++ lines right := by
  simp [lines, splitInclusive_append terminated]

end Crystalline.Text
