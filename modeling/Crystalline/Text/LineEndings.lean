import Crystalline.Text.Lines

/-!
# The one line ending

`toLf` drops the carriage returns in front of each line feed.  It works on
every line apart, so it distributes over texts cut after a line feed, and a
text it has converted is its own conversion.
-/

namespace Crystalline.Text

/-- The loop of `to_lf`, with `pending` carriage returns not written yet. -/
def toLfFrom (pending : Nat) : Text → Text
  | [] => List.replicate pending '\r'
  | char :: text =>
      if char = '\r' then toLfFrom (pending + 1) text
      else if char = '\n' then '\n' :: toLfFrom 0 text
      else List.replicate pending '\r' ++ char :: toLfFrom 0 text

/-- `to_lf`. -/
def toLf (text : Text) : Text :=
  if contains text "\r\n".toList then toLfFrom 0 text else text

/-- A text without the carriage returns it ends with. -/
def withoutReturns (body : Text) : Text := trimEndMatches (· == '\r') body

@[simp] theorem withoutReturns_nil : withoutReturns [] = [] := rfl

theorem withoutReturns_snoc_return (body : Text) :
    withoutReturns (body ++ ['\r']) = withoutReturns body := by
  simp [withoutReturns, trimEndMatches]

theorem withoutReturns_snoc_other (body : Text) {char : Char} (other : char ≠ '\r') :
    withoutReturns (body ++ [char]) = body ++ [char] := by
  simp [withoutReturns, trimEndMatches, other]

theorem withoutReturns_keep (body rest : Text) {char : Char} (other : char ≠ '\r') :
    withoutReturns (body ++ char :: rest) = body ++ char :: withoutReturns rest := by
  induction rest using List.reverseRecOn with
  | nil => simpa using withoutReturns_snoc_other body other
  | append_singleton rest last ih =>
      have shape : body ++ char :: (rest ++ [last]) =
          (body ++ char :: rest) ++ [last] := by simp
      rw [shape]
      by_cases isReturn : last = '\r'
      · subst isReturn
        rw [withoutReturns_snoc_return, withoutReturns_snoc_return, ih]
      · rw [withoutReturns_snoc_other _ isReturn, withoutReturns_snoc_other _ isReturn]
        simp

theorem withoutReturns_replicate (count : Nat) :
    withoutReturns (List.replicate count '\r') = [] := by
  induction count with
  | zero => rfl
  | succ count ih =>
      rw [List.replicate_succ', withoutReturns_snoc_return, ih]

theorem withoutReturns_front (body : Text) : withoutReturns body <+: body :=
  List.rdropWhile_prefix _ _

@[simp] theorem withoutReturns_idem (body : Text) :
    withoutReturns (withoutReturns body) = withoutReturns body := by
  simp [withoutReturns, trimEndMatches, List.rdropWhile_idempotent]

theorem toLfFrom_body_append {body : Text} (absent : '\n' ∉ body) (pending : Nat) (rest : Text) :
    toLfFrom pending (body ++ '\n' :: rest) =
      withoutReturns (List.replicate pending '\r' ++ body) ++
        '\n' :: toLfFrom 0 rest := by
  induction body generalizing pending with
  | nil => simp [toLfFrom, withoutReturns_replicate]
  | cons char body ih =>
      have notNewline : char ≠ '\n' := fun same => absent (by simp [same])
      have tail := ih fun member => absent (List.mem_cons_of_mem _ member)
      rw [List.cons_append, toLfFrom]
      by_cases isReturn : char = '\r'
      · subst isReturn
        have shape : List.replicate pending '\r' ++ '\r' :: body =
            List.replicate (pending + 1) '\r' ++ body := by
          rw [List.replicate_succ']
          simp
        rw [if_pos rfl, tail, shape]
      · rw [if_neg isReturn, if_neg notNewline, tail, withoutReturns_keep _ _ isReturn]
        simp

variable {text : Text}

theorem toLfFrom_of_not_mem (absent : '\n' ∉ text) (pending : Nat) :
    toLfFrom pending text = List.replicate pending '\r' ++ text := by
  induction text generalizing pending with
  | nil => simp [toLfFrom]
  | cons char text ih =>
      have notNewline : char ≠ '\n' := fun same => absent (by simp [same])
      have tail := ih fun member => absent (List.mem_cons_of_mem _ member)
      rw [toLfFrom]
      by_cases isReturn : char = '\r'
      · rw [if_pos isReturn, tail, List.replicate_succ', isReturn]
        simp
      · rw [if_neg isReturn, if_neg notNewline, tail]
        simp

/-- One piece of a text after the conversion. -/
def lfLine (line : Text) : Text :=
  match stripSuffix ['\n'] line with
  | some body => withoutReturns body ++ ['\n']
  | none => line

@[simp] theorem lfLine_snoc (body : Text) :
    lfLine (body ++ ['\n']) = withoutReturns body ++ ['\n'] := by
  rw [lfLine, stripSuffix_eq_some_iff.mpr rfl]

theorem lfLine_of_not_mem {line : Text} (absent : '\n' ∉ line) :
    lfLine line = line := by
  cases found : stripSuffix ['\n'] line with
  | none => simp [lfLine, found]
  | some body =>
      rw [stripSuffix_eq_some_iff.mp found] at absent
      simp at absent

theorem IsLine.lfLine {line : Text} (isLine : IsLine line) :
    IsLine (lfLine line) := by
  obtain ⟨body, absent, rfl⟩ := isLine
  rw [lfLine_snoc]
  exact isLine_snoc fun member => absent ((withoutReturns_front body).subset member)

theorem toLfFrom_eq_lines (text : Text) :
    toLfFrom 0 text = ((splitInclusive text).map lfLine).flatten := by
  obtain ⟨pieces, rest, areLines, absent, rfl⟩ := exists_lines_append text
  induction pieces with
  | nil =>
      rw [List.flatten_nil, List.nil_append, toLfFrom_of_not_mem absent]
      cases rest with
      | nil => simp [splitInclusive]
      | cons char rest =>
          rw [splitInclusive_of_not_mem absent (by simp)]
          simp [lfLine_of_not_mem absent]
  | cons line pieces ih =>
      obtain ⟨body, bodyAbsent, rfl⟩ := areLines line (by simp)
      have tail := ih fun other member => areLines other (List.mem_cons_of_mem _ member)
      have shape : ((body ++ ['\n']) :: pieces).flatten ++ rest =
          body ++ '\n' :: (pieces.flatten ++ rest) := by simp
      rw [shape, toLfFrom_body_append bodyAbsent, splitInclusive_body_append bodyAbsent, tail]
      simp

theorem toLfFrom_of_no_pair (absent : ¬ ['\r', '\n'] <:+: text) : toLfFrom 0 text = text := by
  have kept : ∀ line ∈ splitInclusive text, lfLine line = line := by
    intro line member
    have inside : line <:+: text := by
      obtain ⟨front, back, pieces⟩ := List.append_of_mem member
      rw [← flatten_splitInclusive text, pieces]
      exact ⟨front.flatten, back.flatten, by simp⟩
    cases found : stripSuffix ['\n'] line with
    | none => simp [lfLine, found]
    | some body =>
        have whole := stripSuffix_eq_some_iff.mp found
        rw [whole, lfLine_snoc]
        congr 1
        cases body using List.reverseRecOn with
        | nil => rfl
        | append_singleton body last _ =>
            apply withoutReturns_snoc_other
            intro isReturn
            apply absent
            refine List.IsInfix.trans ⟨body, [], ?_⟩ inside
            simp [whole, isReturn]
  rw [toLfFrom_eq_lines, List.map_congr_left kept]
  simp

theorem toLf_eq_lines (text : Text) :
    toLf text = ((splitInclusive text).map lfLine).flatten := by
  rw [← toLfFrom_eq_lines, toLf]
  split
  · rfl
  · next absent =>
      rw [contains_iff] at absent
      exact (toLfFrom_of_no_pair absent).symm

@[simp] theorem lfLine_lfLine (line : Text) : lfLine (lfLine line) = lfLine line := by
  cases found : stripSuffix ['\n'] line with
  | none =>
      have same : lfLine line = line := by simp [lfLine, found]
      rw [same, same]
  | some body =>
      rw [stripSuffix_eq_some_iff.mp found, lfLine_snoc, lfLine_snoc, withoutReturns_idem]

@[simp] theorem toLf_nil : toLf [] = [] := rfl

theorem toLf_append {left : Text} (terminated : Terminated left) (right : Text) :
    toLf (left ++ right) = toLf left ++ toLf right := by
  simp [toLf_eq_lines, splitInclusive_append terminated]

section

variable (terminated : Terminated text)
include terminated

theorem splitInclusive_toLf : splitInclusive (toLf text) = (splitInclusive text).map lfLine := by
  rw [toLf_eq_lines]
  apply splitInclusive_flatten_of_lines
  intro line member
  obtain ⟨other, otherMember, rfl⟩ := List.mem_map.mp member
  exact (terminated other otherMember).lfLine

theorem Terminated.toLf : Terminated (toLf text) := by
  intro line member
  rw [splitInclusive_toLf terminated] at member
  obtain ⟨other, otherMember, rfl⟩ := List.mem_map.mp member
  exact (terminated other otherMember).lfLine

theorem toLf_toLf : toLf (toLf text) = toLf text := by
  rw [toLf_eq_lines (toLf text), splitInclusive_toLf terminated, List.map_map, toLf_eq_lines]
  congr 1
  apply List.map_congr_left
  intro line _
  exact lfLine_lfLine line

end

@[simp] theorem lineBody_withoutReturns (body : Text) :
    lineBody (withoutReturns body ++ ['\n']) = withoutReturns body := by
  rw [lineBody, stripSuffix_eq_some_iff.mpr rfl]
  cases found : stripSuffix ['\r'] (withoutReturns body) with
  | none => simp [found]
  | some rest =>
      have shape := stripSuffix_eq_some_iff.mp found
      have again := withoutReturns_snoc_return rest
      rw [← shape, withoutReturns_idem] at again
      have lengths := congrArg List.length shape
      have shorter := (withoutReturns_front rest).length_le
      rw [again] at lengths
      simp only [List.length_append, List.length_singleton] at lengths
      omega

/-- The lines of a converted text are the bodies of its lines, their final
carriage returns dropped. -/
theorem lines_toLf_flatten {bodies : List Text} (absent : ∀ body ∈ bodies, '\n' ∉ body) :
    lines (toLf (bodies.map (· ++ ['\n'])).flatten) = bodies.map withoutReturns := by
  have areLines : ∀ line ∈ bodies.map (· ++ ['\n']), IsLine line := by
    intro line member
    obtain ⟨body, bodyMember, rfl⟩ := List.mem_map.mp member
    exact isLine_snoc (absent body bodyMember)
  rw [lines, splitInclusive_toLf (terminated_flatten areLines),
    splitInclusive_flatten_of_lines areLines]
  simp

theorem toLf_of_no_return (absent : '\r' ∉ text) : toLf text = text := by
  rw [toLf, if_neg]
  rw [contains_iff]
  intro pair
  exact absent (pair.subset (by simp))

theorem toLf_line {body : Text} (absent : '\n' ∉ body) :
    toLf (body ++ ['\n']) = withoutReturns body ++ ['\n'] := by
  rw [toLf_eq_lines, splitInclusive_body_append absent]
  simp [splitInclusive]

theorem toLf_idem (text : Text) : toLf (toLf text) = toLf text := by
  obtain ⟨pieces, rest, areLines, absent, rfl⟩ := exists_lines_append text
  have terminated : Terminated pieces.flatten := by
    intro line member
    rw [splitInclusive_flatten_of_lines areLines] at member
    exact areLines line member
  have tail : toLf rest = rest := by
    unfold toLf
    rw [toLfFrom_of_not_mem absent]
    simp
  rw [toLf_append terminated, toLf_append terminated.toLf, toLf_toLf terminated, tail, tail]

end Crystalline.Text
