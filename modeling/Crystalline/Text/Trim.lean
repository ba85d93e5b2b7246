import Crystalline.Text.Basic
import Crystalline.Text.Ends

/-!
# Trimmed texts

A text is trimmed when neither end is a blank; trimming is the one way to cut
blanks off both ends and leave a trimmed text.
-/

namespace Crystalline.Text

def IsBlank (text : Text) : Prop := ∀ char ∈ text, isWhitespace char = true

/-- Neither end of the text is a blank. -/
structure IsTrimmed (text : Text) : Prop where
  head : ∀ char, text.head? = some char → isWhitespace char = false
  last : ∀ char, text.getLast? = some char → isWhitespace char = false

variable {blank : Text}

theorem trimStart_blank_append (isBlank : IsBlank blank) (text : Text) :
    trimStart (blank ++ text) = trimStart text := by
  induction blank with
  | nil => rfl
  | cons char blank ih =>
      have tail := ih fun other member => isBlank other (List.mem_cons_of_mem _ member)
      have head := isBlank char (by simp)
      rw [← tail]
      simp [trimStart, trimStartMatches, head]

theorem trimEnd_append_blank (isBlank : IsBlank blank) (text : Text) :
    trimEnd (text ++ blank) = trimEnd text := by
  induction blank using List.reverseRecOn with
  | nil => simp
  | append_singleton blank char ih =>
      have tail := ih fun other member => isBlank other (by simp [member])
      have last := isBlank char (by simp)
      rw [← tail, ← List.append_assoc, trimEnd, trimEndMatches,
        List.rdropWhile_concat_pos _ _ _ last]
      rfl

variable {text : Text} {front back : Text}

theorem trimStart_of_head (head : ∀ char, text.head? = some char → isWhitespace char = false) :
    trimStart text = text := by
  cases text with
  | nil => rfl
  | cons char text => simp [trimStart, trimStartMatches, head char rfl]

theorem trimEnd_of_last (last : ∀ char, text.getLast? = some char → isWhitespace char = false) :
    trimEnd text = text := by
  cases text using List.reverseRecOn with
  | nil => rfl
  | append_singleton text char _ =>
      have kept := last char (by simp)
      rw [trimEnd, trimEndMatches, List.rdropWhile_concat_neg _ _ _ (by simp [kept])]

theorem IsTrimmed.trimEnd_eq (trimmed : IsTrimmed text) : trimEnd text = text :=
  trimEnd_of_last trimmed.last

theorem trim_around {before inside after : Text} (beforeBlank : IsBlank before)
    (trimmed : IsTrimmed inside) (afterBlank : IsBlank after) :
    trim (before ++ inside ++ after) = inside := by
  rw [trim, List.append_assoc, trimStart_blank_append beforeBlank]
  cases inside with
  | nil =>
      have blank : trimStart ([] ++ after) = [] := by
        have empty := List.dropWhile_eq_nil_iff.mpr afterBlank
        simpa [trimStart, trimStartMatches] using empty
      rw [blank]
      rfl
  | cons char inside =>
      have kept : trimStart (char :: inside ++ after) = char :: inside ++ after := by
        apply trimStart_of_head
        simpa using trimmed.head char rfl
      rw [kept, trimEnd_append_blank afterBlank, trimmed.trimEnd_eq]

theorem IsTrimmed.trim_eq (trimmed : IsTrimmed text) : trim text = text := by
  have empty : IsBlank [] := by simp [IsBlank]
  simpa using trim_around empty trimmed empty

theorem trimStart_head (text : Text) {char : Char}
    (head : (trimStart text).head? = some char) : isWhitespace char = false := by
  induction text with
  | nil => simp [trimStart, trimStartMatches] at head
  | cons first text ih =>
      cases blank : isWhitespace first with
      | true =>
          apply ih
          simpa [trimStart, trimStartMatches, blank] using head
      | false =>
          have same : first = char := by
            simpa [trimStart, trimStartMatches, blank] using head
          rw [← same, blank]

theorem isTrimmed_trim (text : Text) : IsTrimmed (trim text) := by
  have starts : trim text <+: trimStart text := List.rdropWhile_prefix _ _
  refine ⟨?_, ?_⟩
  · intro char head
    obtain ⟨rest, whole⟩ := starts
    apply trimStart_head text
    rw [← whole, List.head?_append, head]
    rfl
  · intro char last
    have nonempty : trim text ≠ [] := by
      intro empty
      rw [empty] at last
      simp at last
    have kept := List.rdropWhile_last_not isWhitespace (trimStart text) nonempty
    rw [List.getLast?_eq_some_getLast nonempty, Option.some.injEq] at last
    rw [← last]
    exact Bool.eq_false_iff.mpr kept

theorem exists_lead (text : Text) :
    ∃ lead, IsBlank lead ∧ text = lead ++ trimStart text :=
  ⟨text.takeWhile isWhitespace, fun _ member => List.mem_takeWhile_imp member,
    List.takeWhile_append_dropWhile.symm⟩

theorem exists_trail (text : Text) :
    ∃ trail, IsBlank trail ∧ text = trimEnd text ++ trail :=
  ⟨text.rtakeWhile isWhitespace, fun _ member => List.mem_rtakeWhile_imp member,
    List.rdropWhile_append_rtakeWhile.symm⟩

theorem exists_trim (text : Text) :
    ∃ before after, IsBlank before ∧ IsBlank after ∧
      text = before ++ trim text ++ after := by
  obtain ⟨lead, leadBlank, startSplit⟩ := exists_lead text
  obtain ⟨trail, trailBlank, endSplit⟩ := exists_trail (trimStart text)
  refine ⟨lead, trail, leadBlank, trailBlank, ?_⟩
  rw [List.append_assoc, trim, ← endSplit, ← startSplit]

theorem isTrimmed_of_trim_eq (same : trim text = text) : IsTrimmed text := by
  have trimmed := isTrimmed_trim text
  rwa [same] at trimmed

theorem isBlank_of_trim_eq_nil (empty : trim text = []) : IsBlank text :=
  trim_eq_nil_iff.mp empty

theorem IsTrimmed.append {front middle back : Text} (frontTrimmed : IsTrimmed front)
    (frontKept : front ≠ []) (backTrimmed : IsTrimmed back) (backKept : back ≠ []) :
    IsTrimmed (front ++ middle ++ back) := by
  refine ⟨?_, ?_⟩
  · intro char head
    apply frontTrimmed.head char
    cases front with
    | nil => exact (frontKept rfl).elim
    | cons first front => simpa using head
  · intro char last
    apply backTrimmed.last char
    rw [List.getLast?_append_of_ne_nil _ backKept] at last
    exact last

theorem IsTrimmed.of_append (trimmed : IsTrimmed front) (kept : front ≠ [])
    (last : ∀ char, back.getLast? = some char →
      isWhitespace char = false) : IsTrimmed (front ++ back) := by
  refine ⟨?_, ?_⟩
  · intro char head
    apply trimmed.head char
    cases front with
    | nil => exact (kept rfl).elim
    | cons first front => simpa using head
  · intro char isLast
    cases back using List.reverseRecOn with
    | nil =>
        apply trimmed.last char
        simpa using isLast
    | append_singleton back end_ _ =>
        apply last char
        rw [← List.append_assoc, List.getLast?_concat] at isLast
        rw [List.getLast?_concat, isLast]

theorem IsTrimmed.trim_front (trimmed : IsTrimmed (front ++ back)) :
    trim front = trimEnd front := by
  rw [trim, trimStart_of_head]
  intro char head
  apply trimmed.head char
  rw [List.head?_append, head]
  rfl

theorem IsTrimmed.trim_back (trimmed : IsTrimmed (front ++ back)) : trim back = trimStart back := by
  cases back with
  | nil => rfl
  | cons char back =>
      rw [trim, trimEnd_of_last]
      intro last isLast
      apply trimmed.last last
      have suffix : trimStart (char :: back) <:+ char :: back := List.dropWhile_suffix _
      obtain ⟨before, whole⟩ := suffix
      have kept : trimStart (char :: back) ≠ [] := by
        intro empty
        rw [empty] at isLast
        simp at isLast
      rw [← whole, ← List.append_assoc, List.getLast?_append_of_ne_nil _ kept]
      exact isLast

theorem trimHyphens_eq_self (first : text.head? ≠ some '-') (last : text.getLast? ≠ some '-') :
    trimHyphens text = text := by
  have starts : ∀ char ∈ text.head?, (char == '-') = false := by
    intro char found
    rw [beq_eq_false_iff_ne]
    rintro rfl
    exact first found
  have ends : ∀ char ∈ text.getLast?, (char == '-') = false := by
    intro char found
    rw [beq_eq_false_iff_ne]
    rintro rfl
    exact last found
  rw [trimHyphens, trimStartMatches, Ends.dropWhile_eq_self starts, trimEndMatches,
    Ends.rdropWhile_eq_self ends]

end Crystalline.Text
