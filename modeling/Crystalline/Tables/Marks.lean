import Mathlib.Data.List.Basic

/-!
# Marks and escapes

A text is cut at its marks, but an escape hides the mark that follows it, and an escaped
escape hides nothing.  One reading of the text carries whether its next character is
escaped; the pieces between the marks are what a join with marks has to be made of to
be cut into the same pieces again.
-/

namespace Crystalline.Marks

variable {α : Type*}

/-- The text of the pieces between marks. -/
def joined (mark : α) (pieces : List (List α)) : List α :=
  [mark].intercalate pieces

/-- The places of the marks between the pieces. -/
def seams (index : Nat) : List (List α) → List Nat
  | [] => []
  | [_] => []
  | piece :: next :: pieces =>
      (index + piece.length) :: seams (index + piece.length + 1) (next :: pieces)

@[simp] theorem joined_singleton (mark : α) (piece : List α) : joined mark [piece] = piece := by
  simp [joined]

theorem joined_cons_cons (mark : α) (piece next : List α) (pieces : List (List α)) :
    joined mark (piece :: next :: pieces) = piece ++ mark :: joined mark (next :: pieces) := by
  simp [joined]

variable {pieces : List (List α)}

theorem joined_cons (mark : α) (piece : List α) (some : pieces ≠ []) :
    joined mark (piece :: pieces) = piece ++ mark :: joined mark pieces := by
  obtain ⟨next, pieces, rfl⟩ := List.exists_cons_of_ne_nil some
  exact joined_cons_cons ..

theorem joined_append (mark : α) {front back : List (List α)} (some : front ≠ [])
    (other : back ≠ []) :
    joined mark (front ++ back) = joined mark front ++ mark :: joined mark back := by
  induction front with
  | nil => exact absurd rfl some
  | cons piece front induction =>
      cases front with
      | nil => rw [List.singleton_append, joined_cons mark piece other, joined_singleton]
      | cons next front =>
          rw [List.cons_append, joined_cons mark piece (by simp),
            induction (List.cons_ne_nil _ _), joined_cons_cons]
          simp only [List.append_assoc, List.cons_append]

/-- Pieces with a mark behind each. -/
def ahead (mark : α) (pieces : List (List α)) : List α :=
  pieces.flatMap (· ++ [mark])

/-- Pieces with a mark before each. -/
def behind (mark : α) (pieces : List (List α)) : List α :=
  pieces.flatMap (mark :: ·)

theorem joined_ahead (mark : α) (front : List (List α)) {back : List (List α)}
    (present : back ≠ []) :
    joined mark (front ++ back) = ahead mark front ++ joined mark back := by
  induction front with
  | nil => rfl
  | cons piece front induction =>
      rw [List.cons_append, joined_cons mark piece (by simp [present]), induction]
      simp only [ahead, List.flatMap_cons, List.append_assoc, List.cons_append, List.nil_append]

variable {front : List (List α)} {pieces others : List (List α)}

theorem joined_behind (mark : α) (present : front ≠ []) (back : List (List α)) :
    joined mark (front ++ back) = joined mark front ++ behind mark back := by
  induction back generalizing front with
  | nil => simp [behind]
  | cons piece back induction =>
      have next := induction (List.append_ne_nil_of_left_ne_nil present [piece])
      rw [List.append_assoc, List.singleton_append] at next
      rw [next, joined_append mark present (List.cons_ne_nil _ _), joined_singleton]
      simp only [behind, List.flatMap_cons, List.append_assoc, List.cons_append]

theorem mem_joined_of_mem (mark : α) {piece : List α} {char : α} (among : piece ∈ pieces)
    (member : char ∈ piece) : char ∈ joined mark pieces := by
  obtain ⟨front, back, rfl⟩ := List.append_of_mem among
  have inside : char ∈ joined mark (piece :: back) := by
    cases back with
    | nil => rwa [joined_singleton]
    | cons next back =>
        rw [joined_cons_cons]
        exact List.mem_append_left _ member
  cases front with
  | nil => exact inside
  | cons first front =>
      rw [joined_append mark (List.cons_ne_nil _ _) (List.cons_ne_nil _ _)]
      exact List.mem_append_right _ (List.mem_cons_of_mem _ inside)

theorem mem_joined {mark : α} {char : α} (member : char ∈ joined mark pieces) :
    char = mark ∨ ∃ piece ∈ pieces, char ∈ piece := by
  induction pieces with
  | nil => cases member
  | cons piece pieces induction =>
      cases pieces with
      | nil => exact .inr ⟨piece, List.mem_cons_self, by rwa [joined_singleton] at member⟩
      | cons next pieces =>
          rw [joined_cons_cons] at member
          rcases List.mem_append.mp member with first | later
          · exact .inr ⟨piece, List.mem_cons_self, first⟩
          · rcases List.mem_cons.mp later with same | rest
            · exact .inl same
            · rcases induction rest with same | ⟨other, among, within⟩
              · exact .inl same
              · exact .inr ⟨other, List.mem_cons_of_mem _ among, within⟩

theorem seams_concat (mark : α) (some : front ≠ []) (last : List α) (index : Nat) :
    seams index (front ++ [last]) =
      seams index front ++ [index + (joined mark front).length] := by
  induction front generalizing index with
  | nil => exact absurd rfl some
  | cons piece front induction =>
      cases front with
      | nil => simp [seams]
      | cons next front =>
          have rest := induction (List.cons_ne_nil _ _) (index + piece.length + 1)
          rw [List.cons_append] at rest
          rw [List.cons_append, List.cons_append, seams, rest, joined_cons_cons]
          have place : index + piece.length + 1 + (joined mark (next :: front)).length =
              index + (piece ++ mark :: joined mark (next :: front)).length := by
            rw [List.length_append, List.length_cons]
            omega
          rw [place, seams, List.cons_append]

theorem seams_of_lengths (same : pieces.map List.length = others.map List.length)
    (distance index : Nat) :
    seams (distance + index) pieces = (seams index others).map (distance + ·) := by
  induction pieces generalizing others index with
  | nil =>
      obtain rfl := List.map_eq_nil_iff.mp same.symm
      rfl
  | cons piece pieces induction =>
      obtain ⟨other, others, rfl, first, rest⟩ := List.map_eq_cons_iff.mp same.symm
      cases pieces with
      | nil =>
          obtain rfl := List.map_eq_nil_iff.mp rest
          rfl
      | cons next pieces =>
          obtain ⟨more, others, rfl, -, -⟩ := List.map_eq_cons_iff.mp rest
          rw [seams, seams, List.map_cons, first, Nat.add_assoc distance, Nat.add_assoc distance,
            induction rest.symm]

theorem length_joined_of_lengths (mark : α)
    (same : pieces.map List.length = others.map List.length) :
    (joined mark pieces).length = (joined mark others).length := by
  induction pieces generalizing others with
  | nil =>
      obtain rfl := List.map_eq_nil_iff.mp same.symm
      rfl
  | cons piece pieces induction =>
      obtain ⟨other, others, rfl, first, rest⟩ := List.map_eq_cons_iff.mp same.symm
      cases pieces with
      | nil =>
          obtain rfl := List.map_eq_nil_iff.mp rest
          rw [joined_singleton, joined_singleton, first]
      | cons next pieces =>
          obtain ⟨more, others, rfl, -, -⟩ := List.map_eq_cons_iff.mp rest
          rw [joined_cons_cons, joined_cons_cons, List.length_append, List.length_append,
            List.length_cons, List.length_cons, first, induction rest.symm]

theorem joined_merge (mark : α) (front back : List (List α)) (piece next : List α) :
    joined mark (front ++ (piece ++ mark :: next) :: back) =
      joined mark (front ++ piece :: next :: back) := by
  rw [joined_ahead mark front (List.cons_ne_nil _ _),
    joined_ahead mark front (List.cons_ne_nil _ _), joined_cons_cons]
  cases back with
  | nil => rw [joined_singleton, joined_singleton]
  | cons other back =>
      rw [joined_cons_cons, joined_cons_cons, List.append_assoc, List.cons_append]

variable [DecidableEq α] (escape mark : α)

/-- Whether a character after the text would be escaped. -/
def escapes (escaped : Bool) (text : List α) : Bool :=
  text.foldl (fun escaped char => decide (char = escape) && !escaped) escaped

/-- The places of the unescaped marks of a text whose first place is `index`. -/
def marksFrom (index : Nat) (escaped : Bool) : List α → List Nat
  | [] => []
  | char :: rest =>
      let found := marksFrom (index + 1) (decide (char = escape) && !escaped) rest
      if char = mark && !escaped then index :: found else found

/-- A text with no unescaped mark in it. -/
def Unmarked (escaped : Bool) (text : List α) : Prop :=
  marksFrom escape mark 0 escaped text = []

/-- Pieces with no mark of their own, each but the last leaving the mark after it
unescaped. -/
def Cut (escaped : Bool) : List (List α) → Prop
  | [] => True
  | [piece] => Unmarked escape mark escaped piece
  | piece :: next :: pieces =>
      Unmarked escape mark escaped piece ∧ escapes escape escaped piece = false ∧
        Cut false (next :: pieces)

section
variable {escape mark}

theorem escapes_cons (escaped : Bool) (char : α) (text : List α) :
    escapes escape escaped (char :: text) =
      escapes escape (decide (char = escape) && !escaped) text := rfl

theorem escapes_append (escaped : Bool) (front back : List α) :
    escapes escape escaped (front ++ back) =
      escapes escape (escapes escape escaped front) back :=
  List.foldl_append

variable {char : α} {text : List α} {escaped : Bool} {pieces : List (List α)}

theorem escapes_concat_of_ne (other : char ≠ escape) (escaped : Bool) (text : List α) :
    escapes escape escaped (text ++ [char]) = false := by
  rw [escapes_append, escapes_cons, decide_eq_false other]
  rfl

theorem escapes_of_ne (other : char ≠ escape) (escaped : Bool) (text : List α) :
    escapes escape escaped (char :: text) = escapes escape false text := by
  rw [escapes_cons, decide_eq_false other]
  rfl

theorem escapes_of_not_mem (absent : escape ∉ text) : escapes escape false text = false := by
  induction text with
  | nil => rfl
  | cons char text induction =>
      have other : char ≠ escape := fun same => absent (same ▸ List.mem_cons_self)
      rw [escapes_of_ne other]
      exact induction fun member => absent (List.mem_cons_of_mem _ member)

theorem marksFrom_append (index : Nat) (escaped : Bool) (front back : List α) :
    marksFrom escape mark index escaped (front ++ back) =
      marksFrom escape mark index escaped front ++
        marksFrom escape mark (index + front.length) (escapes escape escaped front) back := by
  induction front generalizing index escaped with
  | nil => rfl
  | cons char front induction =>
      simp only [List.cons_append, marksFrom, List.length_cons, escapes_cons]
      rw [induction, Nat.add_right_comm, Nat.add_assoc index]
      split <;> rfl

theorem marksFrom_mark (index : Nat) (back : List α) (apart : mark ≠ escape) :
    marksFrom escape mark index false (mark :: back) =
      index :: marksFrom escape mark (index + 1) false back := by
  simp [marksFrom, apart]

theorem marksFrom_of_ne (other : char ≠ mark) (index : Nat) (escaped : Bool) (back : List α) :
    marksFrom escape mark index escaped (char :: back) =
      marksFrom escape mark (index + 1) (decide (char = escape) && !escaped) back := by
  simp [marksFrom, other]

theorem marksFrom_add (index distance : Nat) (escaped : Bool) (text : List α) :
    marksFrom escape mark (index + distance) escaped text =
      (marksFrom escape mark index escaped text).map (· + distance) := by
  induction text generalizing index escaped with
  | nil => rfl
  | cons char text induction =>
      simp only [marksFrom]
      rw [Nat.add_right_comm, induction]
      split <;> rfl

theorem le_of_mem_marksFrom {index place : Nat}
    (member : place ∈ marksFrom escape mark index escaped text) : index ≤ place := by
  have placed := @marksFrom_add _ _ escape mark 0 index escaped text
  rw [Nat.zero_add] at placed
  rw [placed] at member
  obtain ⟨_, _, rfl⟩ := List.mem_map.mp member
  exact Nat.le_add_left _ _

theorem Unmarked.marksFrom (unmarked : Unmarked escape mark escaped text) (index : Nat) :
    marksFrom escape mark index escaped text = [] := by
  have placed := @marksFrom_add _ _ escape mark 0 index escaped text
  rw [Nat.zero_add] at placed
  exact placed.trans (congrArg (List.map _) unmarked)

theorem unmarked_of_marksFrom {index : Nat} (none : marksFrom escape mark index escaped text = []) :
    Unmarked escape mark escaped text := by
  have placed := @marksFrom_add _ _ escape mark 0 index escaped text
  rw [Nat.zero_add, none] at placed
  exact List.map_eq_nil_iff.mp placed.symm

@[simp] theorem unmarked_nil (escaped : Bool) : Unmarked escape mark escaped [] := rfl

theorem unmarked_append {front back : List α} :
    Unmarked escape mark escaped (front ++ back) ↔
      Unmarked escape mark escaped front ∧
        Unmarked escape mark (escapes escape escaped front) back := by
  constructor
  · intro both
    have parts := List.append_eq_nil_iff.mp ((marksFrom_append ..).symm.trans both)
    exact ⟨parts.1, unmarked_of_marksFrom parts.2⟩
  · rintro ⟨first, second⟩
    have parts := @marksFrom_append _ _ escape mark 0 escaped front back
    rw [first.marksFrom, second.marksFrom] at parts
    exact parts

theorem unmarked_cons :
    Unmarked escape mark escaped (char :: text) ↔
      ¬(char = mark ∧ escaped = false) ∧
        Unmarked escape mark (decide (char = escape) && !escaped) text := by
  unfold Unmarked
  constructor
  · intro none
    simp only [Marks.marksFrom] at none
    split at none
    · cases none
    · rename_i other
      exact ⟨by simpa using other, unmarked_of_marksFrom none⟩
  · rintro ⟨other, unmarked⟩
    have rest := Unmarked.marksFrom unmarked (0 + 1)
    simp only [Marks.marksFrom, rest]
    rw [if_neg (by simpa using other)]

theorem unmarked_of_not_mem (absent : mark ∉ text) (escaped : Bool) :
    Unmarked escape mark escaped text := by
  induction text generalizing escaped with
  | nil => rfl
  | cons char text induction =>
      have other : char ≠ mark := fun same => absent (same ▸ List.mem_cons_self)
      exact unmarked_cons.mpr ⟨fun both => other both.1,
        induction (fun member => absent (List.mem_cons_of_mem _ member)) _⟩

theorem escapes_joined (apart : mark ≠ escape) (front : List (List α)) (last : List α) :
    escapes escape false (joined mark (front ++ [last])) = escapes escape false last := by
  cases front with
  | nil => simp
  | cons piece front =>
      rw [joined_append mark (List.cons_ne_nil _ _) (List.cons_ne_nil _ _), joined_singleton,
        escapes_append, escapes_of_ne apart]

theorem Cut.head {piece : List α} (cut : Cut escape mark escaped (piece :: pieces)) :
    Unmarked escape mark escaped piece := by
  cases pieces with
  | nil => exact cut
  | cons next pieces => exact cut.1

theorem cut_iff :
    Cut escape mark false pieces ↔
      (∀ piece ∈ pieces, Unmarked escape mark false piece) ∧
        ∀ piece ∈ pieces.dropLast, escapes escape false piece = false := by
  induction pieces with
  | nil => simp [Cut]
  | cons piece pieces induction =>
      cases pieces with
      | nil => simp [Cut]
      | cons next pieces =>
          rw [Cut, induction, List.dropLast_cons_of_ne_nil (List.cons_ne_nil _ _)]
          constructor
          · rintro ⟨unmarked, unescaped, rest, others⟩
            exact ⟨List.forall_mem_cons.mpr ⟨unmarked, rest⟩,
              List.forall_mem_cons.mpr ⟨unescaped, others⟩⟩
          · rintro ⟨unmarked, unescaped⟩
            have first := List.forall_mem_cons.mp unmarked
            have second := List.forall_mem_cons.mp unescaped
            exact ⟨first.1, second.1, first.2, second.2⟩

theorem marksFrom_joined (apart : mark ≠ escape) (cut : Cut escape mark escaped pieces)
    (index : Nat) :
    marksFrom escape mark index escaped (joined mark pieces) = seams index pieces := by
  induction pieces generalizing index escaped with
  | nil => rfl
  | cons piece pieces induction =>
      cases pieces with
      | nil => simpa [seams] using cut.head.marksFrom index
      | cons next pieces =>
          obtain ⟨unmarked, unescaped, rest⟩ := cut
          rw [joined_cons_cons, marksFrom_append, unmarked.marksFrom, unescaped,
            marksFrom_mark _ _ apart, induction rest]
          rfl

theorem exists_cut (apart : mark ≠ escape) (escaped : Bool) (text : List α) :
    ∃ piece pieces, joined mark (piece :: pieces) = text ∧
      Cut escape mark escaped (piece :: pieces) := by
  induction text generalizing escaped with
  | nil => exact ⟨[], [], joined_singleton _ _, rfl⟩
  | cons char text induction =>
      by_cases isMark : char = mark ∧ escaped = false
      · obtain ⟨rfl, rfl⟩ := isMark
        obtain ⟨piece, pieces, joins, cut⟩ := induction false
        exact ⟨[], piece :: pieces, by rw [joined_cons_cons, joins]; rfl, rfl, rfl, cut⟩
      · obtain ⟨piece, pieces, joins, cut⟩ := induction (decide (char = escape) && !escaped)
        refine ⟨char :: piece, pieces, ?_, ?_⟩
        · cases pieces with
          | nil => rw [joined_singleton] at joins ⊢; rw [joins]
          | cons next pieces =>
              rw [joined_cons_cons] at joins ⊢
              rw [← joins]
              rfl
        · cases pieces with
          | nil => exact unmarked_cons.mpr ⟨isMark, cut⟩
          | cons next pieces =>
              exact ⟨unmarked_cons.mpr ⟨isMark, cut.1⟩, cut.2.1, cut.2.2⟩

end

end Crystalline.Marks
