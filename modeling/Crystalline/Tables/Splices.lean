import Crystalline.Tables.Marks

/-!
# Splices

Several places of a text replaced at once, their places counted in the text as it was.
Where the text is made of lines and each line has at most one place replaced, the
result is made of the lines, each with its own replacement.
-/

namespace Crystalline.Splices

variable {α : Type*}

/-- The characters from `start` up to `stop` give way to `insert`. -/
structure Splice (α : Type*) where
  start : Nat
  stop : Nat
  insert : List α
  deriving Repr, DecidableEq

/-- The text after one replacement. -/
def Splice.apply (splice : Splice α) (text : List α) : List α :=
  text.take splice.start ++ splice.insert ++ text.drop splice.stop

/-- The splice that many places further on. -/
def Splice.shift (distance : Nat) (splice : Splice α) : Splice α :=
  { splice with start := distance + splice.start, stop := distance + splice.stop }

/-- The text after ascending replacements.  The last is made first, so every place is
one of the text as it was. -/
def applied (splices : List (Splice α)) (text : List α) : List α :=
  splices.foldr Splice.apply text

@[simp] theorem applied_nil (text : List α) : applied [] text = text := rfl

theorem applied_append (front back : List (Splice α)) (text : List α) :
    applied (front ++ back) text = applied front (applied back text) :=
  List.foldr_append

/-- Whether the replacement lies within the text. -/
structure Splice.Within (text : List α) (splice : Splice α) : Prop where
  ordered : splice.start ≤ splice.stop
  inside : splice.stop ≤ text.length

theorem Splice.apply_shift {splice : Splice α} {text : List α} (within : splice.Within text)
    (before behind : List α) :
    (splice.shift before.length).apply (before ++ text ++ behind) =
      before ++ splice.apply text ++ behind := by
  have ordered := within.ordered
  have inside := within.inside
  have opens : (before ++ text ++ behind).take (before.length + splice.start) =
      before ++ text.take splice.start := by
    rw [List.append_assoc, List.take_length_add_append, List.take_append_of_le_length (by omega)]
  have closes : (before ++ text ++ behind).drop (before.length + splice.stop) =
      text.drop splice.stop ++ behind := by
    rw [List.append_assoc, List.drop_length_add_append, List.drop_append_of_le_length inside]
  simp only [Splice.apply, Splice.shift]
  rw [opens, closes]
  simp only [List.append_assoc]

/-- A line and what is to be replaced in it. -/
abbrev Work (α : Type*) := List α × Option (Splice α)

/-- The line after its replacement. -/
def Work.edited (work : Work α) : List α :=
  match work.2 with
  | none => work.1
  | some splice => splice.apply work.1

/-- The replacements of lines that follow each other from `start` on, a separator
between them. -/
def spread (start : Nat) : List (Work α) → List (Splice α)
  | [] => []
  | work :: works =>
      ((work.2.map (Splice.shift start)).toList) ++ spread (start + work.1.length + 1) works

/-- Replacing within the lines of a text is replacing within each line. -/
theorem applied_spread (mark : α) {works : List (Work α)}
    (within : ∀ work ∈ works, ∀ splice, work.2 = some splice → splice.Within work.1)
    (before : List α) (others : List (List α)) :
    applied (spread before.length works)
        (before ++ Marks.joined mark (works.map Prod.fst ++ others)) =
      before ++ Marks.joined mark (works.map Work.edited ++ others) := by
  induction works generalizing before with
  | nil => rfl
  | cons work works induction =>
      obtain ⟨first, rest⟩ := List.forall_mem_cons.mp within
      have changed (follows : List α) :
          applied (work.2.map (Splice.shift before.length)).toList
            (before ++ work.1 ++ follows) = before ++ work.edited ++ follows := by
        obtain ⟨line, change⟩ := work
        cases change with
        | none => rfl
        | some splice => exact Splice.apply_shift (first splice rfl) before follows
      rw [spread, applied_append]
      by_cases none : works.map Prod.fst ++ others = []
      · obtain ⟨noWorks, rfl⟩ := List.append_eq_nil_iff.mp none
        obtain rfl := List.map_eq_nil_iff.mp noWorks
        simpa [spread] using changed []
      · have some : works.map Work.edited ++ others ≠ [] := by simpa using none
        have later := induction rest (before ++ work.1 ++ [mark])
        simp only [List.length_append, List.length_singleton] at later
        rw [List.map_cons, List.cons_append, Marks.joined_cons mark _ none, List.map_cons,
          List.cons_append, Marks.joined_cons mark _ some]
        have parted (behind : List α) :
            before ++ (work.1 ++ mark :: behind) =
              before ++ work.1 ++ [mark] ++ behind := by simp
        rw [parted, later, List.append_assoc (before ++ work.1), changed]
        simp

end Crystalline.Splices
