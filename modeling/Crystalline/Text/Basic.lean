import Mathlib.Data.List.DropRight
import Mathlib.Data.List.Infix

/-!
# Text as a list of characters

Strings are read and cut as lists of Unicode scalar values.  Every function
here follows the documented behaviour of the string operation it is named
after; positions count characters, so a slice is always at a boundary.
-/

namespace Crystalline

/-- A text: its characters in order. -/
abbrev Text := List Char

namespace Text

/-- Texts are compared character by character. -/
instance : LawfulBEq Text := inferInstance

/-- The Unicode `White_Space` property. -/
def isWhitespace (char : Char) : Bool :=
  let code := char.toNat
  (9 ≤ code && code ≤ 13) || code == 0x20 || code == 0x85 || code == 0xA0 ||
    code == 0x1680 || (0x2000 ≤ code && code ≤ 0x200A) || code == 0x2028 ||
    code == 0x2029 || code == 0x202F || code == 0x205F || code == 0x3000

/-- `char::is_ascii_control`. -/
def isAsciiControl (char : Char) : Bool :=
  char.toNat < 0x20 || char.toNat == 0x7F

def isAsciiDigit (char : Char) : Bool :=
  0x30 ≤ char.toNat && char.toNat ≤ 0x39

def isAsciiLowercase (char : Char) : Bool :=
  0x61 ≤ char.toNat && char.toNat ≤ 0x7A

def isAsciiUppercase (char : Char) : Bool :=
  0x41 ≤ char.toNat && char.toNat ≤ 0x5A

def isAsciiAlphanumeric (char : Char) : Bool :=
  isAsciiDigit char || isAsciiLowercase char || isAsciiUppercase char

/-- Drop the longest prefix whose characters all satisfy `drop`. -/
def trimStartMatches (drop : Char → Bool) (text : Text) : Text :=
  text.dropWhile drop

/-- Drop the longest suffix whose characters all satisfy `drop`. -/
def trimEndMatches (drop : Char → Bool) (text : Text) : Text :=
  text.rdropWhile drop

/-- `trim_matches('-')`. -/
def trimHyphens (text : Text) : Text := trimEndMatches (· == '-') (trimStartMatches (· == '-') text)

def trimStart (text : Text) : Text := trimStartMatches isWhitespace text

def trimEnd (text : Text) : Text := trimEndMatches isWhitespace text

def trim (text : Text) : Text := trimEnd (trimStart text)

/-- The text after `pattern`, when `text` starts with it. -/
def stripPrefix : (pattern text : Text) → Option Text
  | [], text => some text
  | _ :: _, [] => none
  | wanted :: pattern, char :: text =>
      if wanted = char then stripPrefix pattern text else none

/-- The text before `pattern`, when `text` ends with it. -/
def stripSuffix (pattern text : Text) : Option Text :=
  (stripPrefix pattern.reverse text.reverse).map List.reverse

def startsWith (text pattern : Text) : Bool := (stripPrefix pattern text).isSome

def endsWith (text pattern : Text) : Bool := (stripSuffix pattern text).isSome

/-- The text before and after the first occurrence of `pattern`. -/
def splitOnce (pattern : Text) : Text → Option (Text × Text)
  | [] => (stripPrefix pattern []).map fun rest => ([], rest)
  | char :: text =>
      match stripPrefix pattern (char :: text) with
      | some rest => some ([], rest)
      | none => (splitOnce pattern text).map fun parts =>
          (char :: parts.1, parts.2)

/-- Where `pattern` first occurs. -/
def find (pattern text : Text) : Option Nat :=
  (splitOnce pattern text).map fun parts => parts.1.length

def contains (text pattern : Text) : Bool := (splitOnce pattern text).isSome

/-- The pieces of a text between the characters `separates` holds of. -/
def splitMatches (separates : Char → Bool) : Text → List Text
  | [] => [[]]
  | char :: text =>
      if separates char then [] :: splitMatches separates text
      else
        match splitMatches separates text with
        | [] => [[char]]
        | piece :: pieces => (char :: piece) :: pieces

/-- `str::split_whitespace`. -/
def splitWhitespace (text : Text) : List Text :=
  (splitMatches isWhitespace text).filter (· ≠ [])

/-- The characters from `start` up to `stop`. -/
def slice (text : Text) (start stop : Nat) : Text := (text.take stop).drop start

@[simp] theorem stripPrefix_nil (text : Text) :
    stripPrefix [] text = some text := by
  cases text <;> rfl

theorem stripPrefix_eq_some_iff {pattern text rest : Text} :
    stripPrefix pattern text = some rest ↔ text = pattern ++ rest := by
  induction pattern generalizing text with
  | nil => simp [eq_comm]
  | cons wanted pattern ih =>
      cases text with
      | nil => simp [stripPrefix]
      | cons char text =>
          by_cases same : wanted = char
          · simp [stripPrefix, same, ih]
          · simp [stripPrefix, same, Ne.symm same]

@[simp] theorem stripPrefix_append (pattern rest : Text) :
    stripPrefix pattern (pattern ++ rest) = some rest :=
  stripPrefix_eq_some_iff.mpr rfl

theorem stripPrefix_eq_none_iff {pattern text : Text} :
    stripPrefix pattern text = none ↔ ¬ pattern <+: text := by
  rw [Option.eq_none_iff_forall_ne_some]
  constructor
  · rintro absent ⟨rest, rfl⟩
    exact absent rest (stripPrefix_append pattern rest)
  · intro notPrefix rest found
    exact notPrefix ⟨rest, (stripPrefix_eq_some_iff.mp found).symm⟩

variable {text pattern : Text} {char : Char}

theorem startsWith_iff : startsWith text pattern = true ↔ pattern <+: text := by
  rw [startsWith, Option.isSome_iff_ne_none, Ne, stripPrefix_eq_none_iff, not_not]

theorem stripSuffix_eq_some_iff {pattern text rest : Text} :
    stripSuffix pattern text = some rest ↔ text = rest ++ pattern := by
  simp only [stripSuffix, Option.map_eq_some_iff, stripPrefix_eq_some_iff]
  constructor
  · rintro ⟨reversed, equality, rfl⟩
    simpa using congrArg List.reverse equality
  · rintro rfl
    exact ⟨rest.reverse, by simp, by simp⟩

theorem endsWith_iff : endsWith text pattern = true ↔ pattern <:+ text := by
  rw [endsWith, Option.isSome_iff_exists]
  constructor
  · rintro ⟨rest, found⟩
    exact ⟨rest, (stripSuffix_eq_some_iff.mp found).symm⟩
  · rintro ⟨rest, rfl⟩
    exact ⟨rest, stripSuffix_eq_some_iff.mpr rfl⟩

/-- What a first occurrence is: the pattern stands there and starts at no
earlier position. -/
theorem splitOnce_eq_some_iff {pattern text before after : Text} :
    splitOnce pattern text = some (before, after) ↔
      text = before ++ pattern ++ after ∧
        ∀ early late, before = early ++ late → late ≠ [] →
          ¬ pattern <+: late ++ pattern ++ after := by
  induction text generalizing before with
  | nil =>
      cases pattern with
      | nil =>
          simp only [splitOnce, stripPrefix_nil, Option.map_some, Option.some.injEq, Prod.mk.injEq]
          constructor
          · rintro ⟨rfl, rfl⟩
            simp
          · rintro ⟨equality, -⟩
            simp at equality
            simp [equality]
      | cons wanted pattern => simp [splitOnce, stripPrefix]
  | cons char text ih =>
      cases found : stripPrefix pattern (char :: text) with
      | some rest =>
          have whole := stripPrefix_eq_some_iff.mp found
          simp only [splitOnce, found, Option.some.injEq, Prod.mk.injEq]
          constructor
          · rintro ⟨rfl, rfl⟩
            simpa using whole
          · rintro ⟨equality, first⟩
            cases before with
            | nil =>
                rw [whole] at equality
                simpa using equality
            | cons head before =>
                refine (first [] (head :: before) rfl (by simp) ?_).elim
                rw [← equality, whole]
                exact List.prefix_append _ _
      | none =>
          have notHere := stripPrefix_eq_none_iff.mp found
          simp only [splitOnce, found, Option.map_eq_some_iff, Prod.exists, Prod.mk.injEq]
          constructor
          · rintro ⟨tailBefore, tailAfter, inner, rfl, rfl⟩
            obtain ⟨equality, first⟩ := ih.mp inner
            refine ⟨by simp [equality], ?_⟩
            intro early late split nonempty
            cases early with
            | nil =>
                have lateEq : late = char :: tailBefore := by
                  simpa using split.symm
                simpa [lateEq, equality] using notHere
            | cons head early =>
                exact first early late (by simpa using (List.cons.inj split).2)
                  nonempty
          · rintro ⟨equality, first⟩
            cases before with
            | nil =>
                refine (notHere ?_).elim
                rw [equality]
                simp
            | cons head before =>
                simp only [List.cons_append, List.cons.injEq] at equality
                obtain ⟨rfl, tailEquality⟩ := equality
                refine ⟨before, after, ih.mpr ⟨by simpa using tailEquality, ?_⟩,
                  rfl, rfl⟩
                intro early late split nonempty
                exact first (char :: early) late (by simp [split]) nonempty

theorem splitOnce_eq_none_iff {pattern text : Text} :
    splitOnce pattern text = none ↔ ¬ pattern <:+: text := by
  induction text with
  | nil =>
      cases pattern with
      | nil => simp [splitOnce]
      | cons wanted pattern => simp [splitOnce, stripPrefix]
  | cons char text ih =>
      cases found : stripPrefix pattern (char :: text) with
      | some rest =>
          have whole := stripPrefix_eq_some_iff.mp found
          simp only [splitOnce, found, reduceCtorEq, false_iff, not_not]
          rw [whole]
          exact (List.prefix_append _ _).isInfix
      | none =>
          have notHere := stripPrefix_eq_none_iff.mp found
          simp only [splitOnce, found, Option.map_eq_none_iff, ih, List.infix_cons_iff, not_or]
          exact ⟨fun absent => ⟨notHere, absent⟩, fun both => both.2⟩

theorem contains_iff : contains text pattern = true ↔ pattern <:+: text := by
  rw [contains, Option.isSome_iff_ne_none, Ne, splitOnce_eq_none_iff, not_not]

theorem splitOnce_char_eq_some_iff {text before after : Text} :
    splitOnce [char] text = some (before, after) ↔
      text = before ++ char :: after ∧ char ∉ before := by
  rw [splitOnce_eq_some_iff]
  constructor
  · rintro ⟨equality, first⟩
    refine ⟨by simpa using equality, ?_⟩
    intro member
    obtain ⟨early, late, split⟩ := List.append_of_mem member
    exact first early (char :: late) split (by simp) ⟨_, rfl⟩
  · rintro ⟨equality, absent⟩
    refine ⟨by simpa using equality, ?_⟩
    rintro early late rfl nonempty ⟨rest, whole⟩
    cases late with
    | nil => exact nonempty rfl
    | cons head late =>
        obtain ⟨rfl, -⟩ := List.cons.inj whole
        exact absent (by simp)

variable {before : Text} {text : Text}

theorem splitOnce_char_append (absent : char ∉ before) (after : Text) :
    splitOnce [char] (before ++ char :: after) = some (before, after) :=
  splitOnce_char_eq_some_iff.mpr ⟨rfl, absent⟩

theorem splitOnce_char_eq_none_iff : splitOnce [char] text = none ↔ char ∉ text := by
  rw [splitOnce_eq_none_iff, not_iff_not]
  constructor
  · rintro ⟨before, after, rfl⟩
    simp
  · intro member
    obtain ⟨before, after, rfl⟩ := List.append_of_mem member
    exact ⟨before, after, by simp⟩

theorem splitOnce_of_not_mem (absent : char ∉ before) (pattern after : Text) :
    splitOnce (char :: pattern) (before ++ (char :: pattern ++ after)) =
      some (before, after) := by
  rw [splitOnce_eq_some_iff]
  refine ⟨by simp, ?_⟩
  intro early late split nonempty starts
  cases late with
  | nil => exact nonempty rfl
  | cons head late =>
      obtain ⟨rest, whole⟩ := starts
      obtain ⟨rfl, -⟩ := List.cons.inj whole
      exact absent (by simp [split])

theorem forall_mem_of_all {holds : Char → Prop} [DecidablePred holds]
    (all : (text.all fun char => decide (holds char)) = true) : ∀ char ∈ text, holds char :=
  fun char member => of_decide_eq_true (List.all_eq_true.mp all char member)

theorem trim_eq_nil_iff : trim text = [] ↔ ∀ char ∈ text, isWhitespace char = true := by
  induction text with
  | nil => simp [trim, trimEnd, trimStart, trimStartMatches, trimEndMatches]
  | cons char text ih =>
      cases blank : isWhitespace char with
      | true =>
          have dropped : trim (char :: text) = trim text := by
            simp [trim, trimStart, trimStartMatches, blank]
          simp [dropped, ih, blank]
      | false =>
          have kept : trim (char :: text) = trimEnd (char :: text) := by
            simp [trim, trimStart, trimStartMatches, blank]
          simp [kept, trimEnd, trimEndMatches, List.rdropWhile_eq_nil_iff, blank]

theorem trim_snoc (blank : isWhitespace char = true) (text : Text) :
    trim (text ++ [char]) = trim text := by
  have ending : ∀ text : Text, trimEnd (text ++ [char]) = trimEnd text := by
    intro text
    rw [trimEnd, trimEndMatches, List.rdropWhile_concat_pos _ _ _ blank]
    rfl
  rw [trim, trim, trimStart, trimStart, trimStartMatches, trimStartMatches, List.dropWhile_append]
  split
  · next empty =>
      rw [List.isEmpty_iff.mp empty]
      simp [blank]
  · exact ending _

theorem not_whitespace_of_trim_eq (trimmed : trim (text ++ [char]) = text ++ [char]) :
    isWhitespace char = false := by
  have ends := List.rdropWhile_last_not isWhitespace (trimStart (text ++ [char]))
  change ∀ nonempty : trim (text ++ [char]) ≠ [], _ at ends
  have nonempty : trim (text ++ [char]) ≠ [] := by simp [trimmed]
  have last := ends nonempty
  change ¬ isWhitespace ((trim (text ++ [char])).getLast nonempty) = true at last
  simpa [trimmed] using last

theorem mem_of_mem_splitMatches {separates : Char → Bool} {text piece : Text}
    (member : piece ∈ splitMatches separates text) (inside : char ∈ piece) : char ∈ text := by
  induction text generalizing piece with
  | nil =>
      simp only [splitMatches, List.mem_singleton] at member
      simp [member] at inside
  | cons head text ih =>
      rw [splitMatches] at member
      split at member
      · rcases List.mem_cons.mp member with rfl | later
        · simp at inside
        · exact List.mem_cons_of_mem _ (ih later inside)
      · split at member
        · obtain rfl : piece = [head] := by simpa using member
          rw [List.mem_singleton.mp inside]
          exact List.mem_cons_self
        · next first pieces cut =>
            rcases List.mem_cons.mp member with rfl | later
            · rcases List.mem_cons.mp inside with rfl | tail
              · exact List.mem_cons_self
              · exact List.mem_cons_of_mem _ (ih (by simp [cut]) tail)
            · exact List.mem_cons_of_mem _ (ih (by simp [cut, later]) inside)

theorem slice_append (before inside after : Text) :
    slice (before ++ (inside ++ after)) before.length
      (before.length + inside.length) = inside := by
  rw [slice, List.take_length_add_append, List.drop_left, List.take_left]

end Text

end Crystalline
