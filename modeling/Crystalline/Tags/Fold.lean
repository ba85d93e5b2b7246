import Crystalline.Text.Lowercase
import Crystalline.Text.Trim

/-!
# Folded tags

A tag as it was spelled becomes a tag of lowercase letters, digits and hyphens, or none
at all.  How it was spelled beyond its letters and digits, in upper or lower case, with
which separators between and around the words, leaves no trace.
-/

namespace Crystalline.Tags

open Text

def isTagChar (char : Char) : Bool :=
  isAsciiLowercase char || isAsciiDigit char || char == '-'

/-- A tag in its canonical spelling. -/
def isLowerHyphen (text : Text) : Bool :=
  !text.isEmpty && !startsWith text ['-'] && !endsWith text ['-'] && text.all isTagChar

/-- What a separator run of `hyphens` hyphens becomes; `folds` when it holds another
separator. -/
def flushed (hyphens : Nat) (folds : Bool) : Text :=
  if folds then ['-'] else List.replicate hyphens '-'

/-- The loop of `fold_tag`: what it writes, in a separator run of `hyphens` hyphens
that `folds`. -/
def foldChars : (hyphens : Nat) → (folds : Bool) → Text → Text
  | _, _, [] => []
  | hyphens, folds, char :: text =>
      if char = '-' then foldChars (hyphens + 1) folds text
      else if char = '_' || isWhitespace char then foldChars hyphens true text
      else flushed hyphens folds ++ char :: foldChars 0 false text

/-- The canonical spelling of a tag, if it has one. -/
def foldTag (lower : Lowercase) (raw : Text) : Option Text :=
  let out := trimHyphens (foldChars 0 false (lower.chars raw))
  if isLowerHyphen out then some out else none

/-- A separator other than the hyphen. -/
def IsGap (char : Char) : Prop := char = '_' ∨ isWhitespace char = true

def IsSeparator (char : Char) : Prop := char = '-' ∨ IsGap char

/-- A run of separators that is written as one hyphen. -/
structure IsFoldedRun (run : Text) : Prop where
  separators : ∀ char ∈ run, IsSeparator char
  gap : ∃ char ∈ run, IsGap char

variable {char : Char} {run : Text} {text : Text}

theorem isGap_iff : IsGap char ↔ (char = '_' || isWhitespace char) = true := by
  rw [IsGap, Bool.or_eq_true, decide_eq_true_eq]

theorem IsGap.ne_hyphen (gap : IsGap char) : char ≠ '-' := by
  rintro rfl
  exact absurd (isGap_iff.mp gap) (by decide)

theorem foldChars_hyphen (hyphens : Nat) (folds : Bool) (text : Text) :
    foldChars hyphens folds ('-' :: text) = foldChars (hyphens + 1) folds text := by
  rw [foldChars, if_pos rfl]

theorem foldChars_gap (gap : IsGap char) (hyphens : Nat) (folds : Bool) (text : Text) :
    foldChars hyphens folds (char :: text) = foldChars hyphens true text := by
  rw [foldChars, if_neg gap.ne_hyphen, if_pos (isGap_iff.mp gap)]

theorem foldChars_other (other : ¬ IsSeparator char) (hyphens : Nat) (folds : Bool) (text : Text) :
    foldChars hyphens folds (char :: text) =
      flushed hyphens folds ++ char :: foldChars 0 false text := by
  rw [IsSeparator, not_or, isGap_iff] at other
  rw [foldChars, if_neg other.1, if_neg other.2]

theorem isSeparator_cases (char : Char) : char = '-' ∨ IsGap char ∨ ¬ IsSeparator char := by
  by_cases separator : IsSeparator char
  · exact separator.imp_right .inl
  · exact .inr (.inr separator)

theorem foldChars_folds (hyphens other : Nat) (text : Text) :
    foldChars hyphens true text = foldChars other true text := by
  induction text generalizing hyphens other with
  | nil => rfl
  | cons char text induction =>
      rcases isSeparator_cases char with rfl | gap | letter
      · rw [foldChars_hyphen, foldChars_hyphen]
        exact induction _ _
      · rw [foldChars_gap gap, foldChars_gap gap]
        exact induction _ _
      · rw [foldChars_other letter, foldChars_other letter]
        rfl

theorem foldChars_separators (separators : ∀ char ∈ run, IsSeparator char) (hyphens : Nat)
    (text : Text) : foldChars hyphens true (run ++ text) = foldChars 0 true text := by
  induction run generalizing hyphens with
  | nil => exact foldChars_folds _ _ _
  | cons char run induction =>
      have later := induction fun other member => separators other (List.mem_cons_of_mem _ member)
      rw [List.cons_append]
      rcases separators char List.mem_cons_self with rfl | gap
      · rw [foldChars_hyphen, later]
      · rw [foldChars_gap gap, later]

theorem foldChars_run (folded : IsFoldedRun run) (hyphens : Nat) (folds : Bool) (text : Text) :
    foldChars hyphens folds (run ++ text) = foldChars 0 true text := by
  obtain ⟨separators, gap⟩ := folded
  induction run generalizing hyphens folds with
  | nil => simp at gap
  | cons char run induction =>
      have later : ∀ other ∈ run, IsSeparator other := fun other member =>
        separators other (List.mem_cons_of_mem _ member)
      rw [List.cons_append]
      rcases separators char List.mem_cons_self with rfl | here
      · obtain ⟨other, member, isGap⟩ := gap
        have behind : other ∈ run :=
          (List.mem_cons.mp member).resolve_left isGap.ne_hyphen
        rw [foldChars_hyphen, induction _ _ later ⟨other, behind, isGap⟩]
      · rw [foldChars_gap here, foldChars_separators later]

theorem foldChars_front {first second : Text}
    (same : ∀ hyphens folds, foldChars hyphens folds first = foldChars hyphens folds second)
    (front : Text) (hyphens : Nat) (folds : Bool) :
    foldChars hyphens folds (front ++ first) = foldChars hyphens folds (front ++ second) := by
  induction front generalizing hyphens folds with
  | nil => exact same hyphens folds
  | cons char front induction =>
      rw [List.cons_append, List.cons_append]
      rcases isSeparator_cases char with rfl | gap | letter
      · rw [foldChars_hyphen, foldChars_hyphen, induction]
      · rw [foldChars_gap gap, foldChars_gap gap, induction]
      · rw [foldChars_other letter, foldChars_other letter, induction]

theorem foldChars_trailing (separators : ∀ char ∈ run, IsSeparator char) (text : Text) :
    foldChars 0 false (text ++ run) = foldChars 0 false text := by
  have nothing (hyphens : Nat) (folds : Bool) : foldChars hyphens folds run = [] := by
    induction run generalizing hyphens folds with
    | nil => rfl
    | cons char run induction =>
        have later := induction fun other member =>
          separators other (List.mem_cons_of_mem _ member)
        rcases separators char List.mem_cons_self with rfl | gap
        · rw [foldChars_hyphen, later]
        · rw [foldChars_gap gap, later]
  have empty : foldChars 0 false (text ++ run) = foldChars 0 false (text ++ []) :=
    foldChars_front nothing text 0 false
  rwa [List.append_nil] at empty

theorem trimStart_foldChars (hyphens other : Nat) (folds also : Bool) (text : Text) :
    trimStartMatches (· == '-') (foldChars hyphens folds text) =
      trimStartMatches (· == '-') (foldChars other also text) := by
  induction text generalizing hyphens other folds also with
  | nil => rfl
  | cons char text induction =>
      rcases isSeparator_cases char with rfl | gap | letter
      · rw [foldChars_hyphen, foldChars_hyphen]
        exact induction _ _ _ _
      · rw [foldChars_gap gap, foldChars_gap gap]
        exact induction _ _ _ _
      · have dropped (hyphens : Nat) (folds : Bool) :
            (flushed hyphens folds ++ char :: foldChars 0 false text).dropWhile (· == '-') =
              (char :: foldChars 0 false text).dropWhile (· == '-') := by
          apply List.dropWhile_append_of_pos
          intro hyphen member
          rw [flushed] at member
          split at member
          · simpa using member
          · simpa using (List.mem_replicate.mp member).2
        rw [foldChars_other letter, foldChars_other letter, trimStartMatches, trimStartMatches,
          dropped, dropped]

theorem trimHyphens_leading (separators : ∀ char ∈ run, IsSeparator char) (text : Text) :
    trimHyphens (foldChars 0 false (run ++ text)) = trimHyphens (foldChars 0 false text) := by
  have state (hyphens : Nat) (folds : Bool) : ∃ hyphens' folds',
      foldChars hyphens folds (run ++ text) = foldChars hyphens' folds' text := by
    induction run generalizing hyphens folds with
    | nil => exact ⟨hyphens, folds, rfl⟩
    | cons char run induction =>
        have later := induction fun other member =>
          separators other (List.mem_cons_of_mem _ member)
        rw [List.cons_append]
        rcases separators char List.mem_cons_self with rfl | gap
        · rw [foldChars_hyphen]
          exact later _ _
        · rw [foldChars_gap gap]
          exact later _ _
  obtain ⟨hyphens, folds, same⟩ := state 0 false
  rw [same, trimHyphens, trimHyphens, trimStart_foldChars hyphens 0 folds false]

theorem mem_foldChars (other : ¬ IsSeparator char) (member : char ∈ text) (hyphens : Nat)
    (folds : Bool) : char ∈ foldChars hyphens folds text := by
  induction text generalizing hyphens folds with
  | nil => cases member
  | cons first text induction =>
      rcases isSeparator_cases first with rfl | gap | letter
      · rw [foldChars_hyphen]
        have behind : char ∈ text := (List.mem_cons.mp member).resolve_left fun same =>
          other (.inl same)
        exact induction behind _ _
      · rw [foldChars_gap gap]
        have behind : char ∈ text := (List.mem_cons.mp member).resolve_left fun same =>
          other (.inr (same ▸ gap))
        exact induction behind _ _
      · rw [foldChars_other letter]
        rcases List.mem_cons.mp member with rfl | behind
        · exact List.mem_append_right _ List.mem_cons_self
        · exact List.mem_append_right _ (List.mem_cons_of_mem _ (induction behind _ _))

theorem mem_dropWhile_hyphen (other : char ≠ '-') (member : char ∈ text) :
    char ∈ text.dropWhile (· == '-') := by
  rw [← List.takeWhile_append_dropWhile (p := (· == '-')) (l := text)] at member
  refine (List.mem_append.mp member).resolve_left ?_
  intro inside
  exact other (by simpa using List.mem_takeWhile_imp inside)

theorem mem_trimHyphens (other : char ≠ '-') (member : char ∈ text) : char ∈ trimHyphens text := by
  have start := mem_dropWhile_hyphen other member
  exact List.mem_reverse.mpr (mem_dropWhile_hyphen other (List.mem_reverse.mpr start))

theorem startsWith_hyphen : startsWith text ['-'] = true ↔ text.head? = some '-' := by
  rw [startsWith_iff]
  cases text with
  | nil => simp
  | cons char text => simp [List.cons_prefix_cons, eq_comm]

theorem endsWith_hyphen : endsWith text ['-'] = true ↔ text.getLast? = some '-' := by
  rw [endsWith_iff]
  constructor
  · rintro ⟨front, rfl⟩
    exact List.getLast?_concat
  · intro last
    obtain ⟨front, rfl⟩ := List.getLast?_eq_some_iff.mp last
    exact List.suffix_append front ['-']

theorem isLowerHyphen_iff :
    isLowerHyphen text = true ↔ text ≠ [] ∧ text.head? ≠ some '-' ∧ text.getLast? ≠ some '-' ∧
      ∀ char ∈ text, isTagChar char = true := by
  rw [isLowerHyphen, Bool.and_eq_true, Bool.and_eq_true, Bool.and_eq_true, Bool.not_eq_true',
    Bool.not_eq_true', Bool.not_eq_true', Bool.eq_false_iff, Bool.eq_false_iff, Bool.eq_false_iff,
    Ne, Ne, Ne, startsWith_hyphen, endsWith_hyphen, List.all_eq_true, List.isEmpty_iff, and_assoc,
    and_assoc]

theorem not_isSeparator_of_isTagChar (tag : isTagChar char = true) (other : char ≠ '-') :
    ¬ IsSeparator char := by
  have code : char.toNat ≠ 0x5F ∧ isWhitespace char = false := by
    simp only [isTagChar, isAsciiLowercase, isAsciiDigit, Bool.or_eq_true, Bool.and_eq_true,
      decide_eq_true_eq, beq_iff_eq, other, or_false] at tag
    constructor
    · omega
    · simp [isWhitespace]
      omega
  rintro (rfl | rfl | blank)
  · exact other rfl
  · exact code.1 rfl
  · exact absurd blank (by simp [code.2])

/-- Without a hyphen at its end a canonical tag is written as it is. -/
theorem foldChars_tag (chars : ∀ char ∈ text, isTagChar char = true)
    (last : text.getLast? ≠ some '-') (nonempty : text ≠ []) (hyphens : Nat) :
    foldChars hyphens false text = List.replicate hyphens '-' ++ text := by
  induction text generalizing hyphens with
  | nil => exact absurd rfl nonempty
  | cons char text induction =>
      have later : text ≠ [] → ∀ hyphens,
          foldChars hyphens false text = List.replicate hyphens '-' ++ text := by
        intro more
        refine induction (fun other member => chars other (List.mem_cons_of_mem _ member)) ?_ more
        rwa [List.getLast?_cons_of_ne_nil more] at last
      by_cases hyphen : char = '-'
      · subst char
        have more : text ≠ [] := by
          rintro rfl
          exact last rfl
        rw [foldChars_hyphen, later more, List.replicate_succ', List.append_assoc]
        rfl
      · rw [foldChars_other (not_isSeparator_of_isTagChar (chars char List.mem_cons_self) hyphen)]
        by_cases more : text = []
        · subst text
          rfl
        · rw [later more]
          rfl

section

variable (lower : Lowercase) {char : Char}

theorem ofChar_of_isTagChar (tag : isTagChar char = true) : lower.ofChar char = [char] := by
  have code : char.toNat < 0x80 ∧ ¬ (0x41 ≤ char.toNat ∧ char.toNat ≤ 0x5A) := by
    by_cases hyphen : char = '-'
    · subst char
      decide
    · simp only [isTagChar, isAsciiLowercase, isAsciiDigit, Bool.or_eq_true, Bool.and_eq_true,
        decide_eq_true_eq, beq_iff_eq, hyphen, or_false] at tag
      omega
  rw [lower.ascii char code.1, Lowercase.toLower_of_not_upper code.2]

theorem ofChar_of_isSeparator (separator : IsSeparator char) : lower.ofChar char = [char] := by
  rcases separator with rfl | rfl | blank
  · exact lower.ascii '-' (by decide)
  · exact lower.ascii '_' (by decide)
  · exact lower.blank char blank

theorem foldTag_of_isLowerHyphen {tag : Text} (canonical : isLowerHyphen tag = true) :
    foldTag lower tag = some tag := by
  obtain ⟨nonempty, head, last, chars⟩ := isLowerHyphen_iff.mp canonical
  have settled : lower.chars tag = tag :=
    lower.chars_eq_self fun char member => ofChar_of_isTagChar lower (chars char member)
  have written : foldChars 0 false tag = tag := foldChars_tag chars last nonempty 0
  rw [foldTag, settled, written, trimHyphens_eq_self head last]
  exact if_pos canonical

theorem foldTag_eq_some {raw tag : Text} (folded : foldTag lower raw = some tag) :
    isLowerHyphen tag = true := by
  rw [foldTag] at folded
  split at folded
  next canonical =>
    obtain rfl := Option.some.inj folded
    exact canonical
  · cases folded

theorem foldTag_eq_none {raw : Text} (member : char ∈ lower.chars raw) (other : ¬ IsSeparator char)
    (foreign : isTagChar char ≠ true) : foldTag lower raw = none := by
  have kept := mem_trimHyphens (fun same => other (.inl same))
    (mem_foldChars other member 0 false)
  rw [foldTag]
  refine if_neg ?_
  intro canonical
  exact foreign ((isLowerHyphen_iff.mp canonical).2.2.2 char kept)

theorem foldTag_sigma {raw : Text} (sigma : 'σ' ∈ lower.chars raw ∨ 'ς' ∈ lower.chars raw) :
    foldTag lower raw = none := by
  rcases sigma with member | member
  · refine foldTag_eq_none lower member ?_ (by decide)
    rw [IsSeparator, isGap_iff]
    decide
  · refine foldTag_eq_none lower member ?_ (by decide)
    rw [IsSeparator, isGap_iff]
    decide

theorem mem_chars {text : Text} (member : char ∈ text) (same : lower.ofChar char = [char]) :
    char ∈ lower.chars text :=
  List.mem_flatMap.mpr ⟨char, member, by rw [same]; exact List.mem_cons_self⟩

theorem foldTag_lowercase (raw : Text) : foldTag lower (lower.ofText raw) = foldTag lower raw := by
  by_cases capital : 'Σ' ∈ raw
  · -- Either small sigma keeps the text from being a tag.
    have small : 'σ' ∈ lower.chars raw :=
      List.mem_flatMap.mpr ⟨'Σ', capital, by rw [lower.sigma]; exact List.mem_cons_self⟩
    rw [foldTag_sigma lower (.inl small), foldTag_sigma]
    refine (lower.sigma_mem_ofTextFrom capital []).imp ?_ ?_
    · exact fun member => mem_chars lower member lower.smallSigma
    · exact fun member => mem_chars lower member lower.finalSigma
  · rw [foldTag, foldTag, lower.chars_ofText capital]

theorem chars_separators {run : Text} (separators : ∀ char ∈ run, IsSeparator char) :
    lower.chars run = run :=
  lower.chars_eq_self fun char member => ofChar_of_isSeparator lower (separators char member)

theorem foldTag_run {run other : Text} (folded : IsFoldedRun run) (also : IsFoldedRun other)
    (front back : Text) :
    foldTag lower (front ++ run ++ back) = foldTag lower (front ++ other ++ back) := by
  have same : foldChars 0 false (lower.chars front ++ (run ++ lower.chars back)) =
      foldChars 0 false (lower.chars front ++ (other ++ lower.chars back)) := by
    refine foldChars_front ?_ _ 0 false
    intro hyphens folds
    rw [foldChars_run folded, foldChars_run also]
  rw [foldTag, foldTag, List.append_assoc, List.append_assoc, lower.chars_append,
    lower.chars_append, lower.chars_append, lower.chars_append,
    chars_separators lower folded.separators, chars_separators lower also.separators, same]

theorem foldTag_ends {lead trail : Text} (leading : ∀ char ∈ lead, IsSeparator char)
    (trailing : ∀ char ∈ trail, IsSeparator char) (raw : Text) :
    foldTag lower (lead ++ raw ++ trail) = foldTag lower raw := by
  rw [foldTag, foldTag, lower.chars_append, lower.chars_append, chars_separators lower leading,
    chars_separators lower trailing, foldChars_trailing trailing, trimHyphens_leading leading]

/-- Tag folding is a normal form that sees neither case nor separators. -/
theorem foldTag_normal_form :
    (∀ raw tag, foldTag lower raw = some tag →
        isLowerHyphen tag = true ∧ foldTag lower tag = some tag) ∧
      (∀ tag, isLowerHyphen tag = true → foldTag lower tag = some tag) ∧
      (∀ raw, foldTag lower (lower.ofText raw) = foldTag lower raw) ∧
      (∀ front run other back, IsFoldedRun run → IsFoldedRun other →
        foldTag lower (front ++ run ++ back) = foldTag lower (front ++ other ++ back)) ∧
      ∀ lead raw trail, (∀ char ∈ lead, IsSeparator char) → (∀ char ∈ trail, IsSeparator char) →
        foldTag lower (lead ++ raw ++ trail) = foldTag lower raw := by
  refine ⟨?_, fun tag => foldTag_of_isLowerHyphen lower, foldTag_lowercase lower, ?_, ?_⟩
  · intro raw tag folded
    have canonical := foldTag_eq_some lower folded
    exact ⟨canonical, foldTag_of_isLowerHyphen lower canonical⟩
  · intro front run other back folded also
    exact foldTag_run lower folded also front back
  · intro lead raw trail leading trailing
    exact foldTag_ends lower leading trailing raw

theorem foldTag_normal_form_words :
    foldTag .simple "two-words".toList = some "two-words".toList ∧
      foldTag .simple ("Two".toList ++ " _-".toList ++ "Words".toList) =
        foldTag .simple ("Two".toList ++ "_".toList ++ "Words".toList) ∧
      foldTag .simple (" -".toList ++ "Two Words".toList ++ "_".toList) =
        foldTag .simple "Two Words".toList := by
  obtain ⟨-, tags, -, runs, ends⟩ := foldTag_normal_form Lowercase.simple
  have separator {run : Text} (among : run.all (· ∈ [' ', '_', '-']) = true) :
      ∀ char ∈ run, IsSeparator char := by
    intro char member
    have one := List.all_eq_true.mp among char member
    simp only [decide_eq_true_eq, List.mem_cons, List.not_mem_nil, or_false] at one
    rcases one with rfl | rfl | rfl
    · exact .inr (.inr (by decide))
    · exact .inr (.inl rfl)
    · exact .inl rfl
  have folds : IsFoldedRun " _-".toList :=
    ⟨separator (by decide), '_', by decide, .inl rfl⟩
  have underscore : IsFoldedRun "_".toList :=
    ⟨separator (by decide), '_', by decide, .inl rfl⟩
  exact ⟨tags _ (by decide), runs _ _ _ _ folds underscore,
    ends _ _ _ (separator (by decide)) (separator (by decide))⟩

example : foldTag .simple " Two _Words--Tag-".toList = some "two-words--tag".toList := by decide

end

end Crystalline.Tags
