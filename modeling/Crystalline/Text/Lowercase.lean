import Crystalline.Text.Basic

/-!
# Lowercase

The lowercase of a text goes character by character, but for the capital sigma, which
is written differently at the end of a word.  The tables of the characters and of the
ends of words change with the versions of Unicode; what does not change is told here.
-/

namespace Crystalline.Text

/-- The tables of a version of Unicode. -/
structure Lowercase where
  /-- `char::to_lowercase`. -/
  ofChar : Char → Text
  /-- Whether a capital sigma between two texts ends a word. -/
  endsWord : (before after : Text) → Bool
  ascii : ∀ char, char.toNat < 0x80 → ofChar char = [char.toLower]
  blank : ∀ char, isWhitespace char = true → ofChar char = [char]
  sigma : ofChar 'Σ' = ['σ']
  finalSigma : ofChar 'ς' = ['ς']
  /-- What is lowercase stays as it is. -/
  settled : ∀ char, (ofChar char).flatMap ofChar = ofChar char

namespace Lowercase

variable (lower : Lowercase)

/-- The loop of `str::to_lowercase`. -/
def ofTextFrom (before : Text) : Text → Text
  | [] => []
  | char :: after =>
      (if char = 'Σ' then (if lower.endsWord before after then ['ς'] else ['σ'])
        else lower.ofChar char) ++ ofTextFrom (before ++ [char]) after

/-- `str::to_lowercase`. -/
def ofText (text : Text) : Text := lower.ofTextFrom [] text

/-- The lowercase of every character on its own. -/
def chars (text : Text) : Text := text.flatMap lower.ofChar

@[simp] theorem chars_cons (char : Char) (text : Text) :
    lower.chars (char :: text) = lower.ofChar char ++ lower.chars text := List.flatMap_cons

@[simp] theorem chars_append (front back : Text) :
    lower.chars (front ++ back) = lower.chars front ++ lower.chars back := List.flatMap_append

theorem smallSigma : lower.ofChar 'σ' = ['σ'] := by
  have settled := lower.settled 'Σ'
  rw [lower.sigma] at settled
  simpa using settled

variable {text : Text}

theorem chars_eq_self (same : ∀ char ∈ text, lower.ofChar char = [char]) :
    lower.chars text = text := by
  induction text with
  | nil => rfl
  | cons char text induction =>
      rw [chars_cons, same char List.mem_cons_self,
        induction fun other member => same other (List.mem_cons_of_mem _ member)]
      rfl

theorem chars_ofTextFrom (plain : 'Σ' ∉ text) (before : Text) :
    lower.chars (lower.ofTextFrom before text) = lower.chars text := by
  induction text generalizing before with
  | nil => rfl
  | cons char text induction =>
      have other : char ≠ 'Σ' := fun same => plain (same ▸ List.mem_cons_self)
      rw [ofTextFrom, if_neg other, chars_append, chars_cons,
        induction (fun member => plain (List.mem_cons_of_mem _ member))]
      exact congrArg (· ++ lower.chars text) (lower.settled char)

theorem chars_ofText (plain : 'Σ' ∉ text) :
    lower.chars (lower.ofText text) = lower.chars text := lower.chars_ofTextFrom plain []

theorem sigma_mem_ofTextFrom (capital : 'Σ' ∈ text) (before : Text) :
    'σ' ∈ lower.ofTextFrom before text ∨ 'ς' ∈ lower.ofTextFrom before text := by
  induction text generalizing before with
  | nil => cases capital
  | cons char text induction =>
      rw [ofTextFrom]
      rcases List.mem_cons.mp capital with rfl | later
      · rw [if_pos rfl]
        split
        · exact .inr List.mem_cons_self
        · exact .inl List.mem_cons_self
      · refine (induction later (before ++ [char])).imp ?_ ?_
        · exact List.mem_append_right _
        · exact List.mem_append_right _

theorem toLower_of_not_upper {char : Char} (other : ¬ (0x41 ≤ char.toNat ∧ char.toNat ≤ 0x5A)) :
    char.toLower = char := by
  unfold Char.toLower
  rw [dif_neg]
  rintro ⟨first, last⟩
  exact other ⟨UInt32.le_iff_toNat_le.mp first, UInt32.le_iff_toNat_le.mp last⟩

theorem toNat_toLower {char : Char} (upper : 0x41 ≤ char.toNat ∧ char.toNat ≤ 0x5A) :
    char.toLower.toNat = char.toNat + 32 := by
  have inside : char.val ≥ 'A'.val ∧ char.val ≤ 'Z'.val :=
    ⟨UInt32.le_iff_toNat_le.mpr upper.1, UInt32.le_iff_toNat_le.mpr upper.2⟩
  unfold Char.toLower
  rw [dif_pos inside]
  change (char.val + ('a'.val - 'A'.val)).toNat = char.val.toNat + 32
  have bound : char.val.toNat ≤ 0x5A := upper.2
  have shift : ('a'.val - 'A'.val).toNat = 32 := by decide
  rw [UInt32.toNat_add, shift]
  omega

/-- The tables cut down to the ASCII letters and the capital sigma. -/
def simple : Lowercase where
  ofChar char := if char = 'Σ' then ['σ'] else [char.toLower]
  endsWord _ after := after.isEmpty
  ascii char small := by
    have other : char ≠ 'Σ' := by
      rintro rfl
      exact absurd small (by decide)
    rw [if_neg other]
  blank char blank := by
    have other : char ≠ 'Σ' := by
      rintro rfl
      exact absurd blank (by decide)
    have same : char.toLower = char := by
      apply toLower_of_not_upper
      simp [isWhitespace] at blank
      omega
    rw [if_neg other, same]
  sigma := rfl
  finalSigma := rfl
  settled char := by
    by_cases capital : char = 'Σ'
    · subst char
      rfl
    · rw [if_neg capital, List.flatMap_singleton]
      by_cases upper : 0x41 ≤ char.toNat ∧ char.toNat ≤ 0x5A
      · have code := toNat_toLower upper
        have small : char.toLower ≠ 'Σ' := by
          intro same
          rw [same] at code
          have sigma : 'Σ'.toNat = 0x3A3 := rfl
          omega
        rw [if_neg small, toLower_of_not_upper (by omega)]
      · rw [toLower_of_not_upper upper, if_neg capital, toLower_of_not_upper upper]

end Lowercase

end Crystalline.Text
