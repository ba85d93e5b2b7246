import Crystalline.Merging.EditScript
import Crystalline.Text.Lines
import Mathlib.Algebra.Order.Ring.Nat

/-!
# Morphing a live text into a target

The live text is edited line by line, and inside a replaced line cluster by cluster, at
positions that count UTF-16 code units.  Wherever the edit script is, what is before the
position is already the target and what is behind it still the old text.
-/

namespace Crystalline.Collab

open Text Merging

/-- How many code units a character is in UTF-16. -/
def utf16Size (char : Char) : Nat := if char.toNat < 0x10000 then 1 else 2

/-- `encode_utf16().count()`. -/
def utf16Len : Text → Nat
  | [] => 0
  | char :: text => utf16Size char + utf16Len text

/-- The text before an index of code units and the text from it on. -/
def splitUnits : Text → Nat → Option (Text × Text)
  | text, 0 => some ([], text)
  | [], _ + 1 => none
  | char :: text, index + 1 =>
      if utf16Size char ≤ index + 1 then
        (splitUnits text (index + 1 - utf16Size char)).map fun parts => (char :: parts.1, parts.2)
      else none

/-- The live text's operations, at positions it counts in 32 bits. -/
inductive TextEdit where
  | insert (index : UInt32) (text : Text)
  | remove (index len : UInt32)

/-- An operation on the live text; nothing when its range is not one of the text. -/
def TextEdit.apply (content : Text) : TextEdit → Option Text
  | .insert index text => do
      let parts ← splitUnits content index.toNat
      some (parts.1 ++ text ++ parts.2)
  | .remove index len => do
      let parts ← splitUnits content index.toNat
      let rest ← splitUnits parts.2 len.toNat
      some (parts.1 ++ rest.2)

def applyEdits (content : Text) : List TextEdit → Option Text
  | [] => some content
  | edit :: edits => (edit.apply content).bind fun content => applyEdits content edits

/-- `utf16`: the code units of a text, in 32 bits. -/
def utf16 (text : Text) : UInt32 := UInt32.ofNat (utf16Len text)

/-- `units`: the code units of a run of slices, in 32 bits. -/
def units (slices : List Text) : UInt32 := (slices.map utf16).foldl (· + ·) 0

/-- A range of a list. -/
def rangeOf (items : List Text) (start len : Nat) : List Text := (items.drop start).take len

/-- The lines inserted one after the other, and the position behind them. -/
def insertLines (pos : UInt32) : List Text → List TextEdit × UInt32
  | [] => ([], pos)
  | line :: lines =>
      let later := insertLines (pos + utf16 line) lines
      (.insert pos line :: later.1, later.2)

/-- What an operation on the clusters of a line does where they differ. -/
def editClusters (pos : UInt32) (gone came : List Text) : List TextEdit × UInt32 :=
  let removed := units gone
  let inserted := came.flatten
  let removal := if 0 < removed then [.remove pos removed] else []
  if inserted.isEmpty then (removal, pos)
  else (removal ++ [.insert pos inserted], pos + utf16 inserted)

/-- The loop of `apply_line` over the operations between the clusters of two lines. -/
def applyLineFrom (old new : List Text) (pos : UInt32) : List DiffOp → List TextEdit × UInt32
  | [] => ([], pos)
  | .equal oldIndex _ len :: ops =>
      applyLineFrom old new (pos + units (rangeOf old oldIndex len)) ops
  | op :: ops =>
      let edited := match op with
        | .delete oldIndex oldLen _ => editClusters pos (rangeOf old oldIndex oldLen) []
        | .insert _ newIndex newLen => editClusters pos [] (rangeOf new newIndex newLen)
        | .replace oldIndex oldLen newIndex newLen =>
            editClusters pos (rangeOf old oldIndex oldLen) (rangeOf new newIndex newLen)
        | .equal _ _ _ => ([], pos)
      let later := applyLineFrom old new edited.2 ops
      (edited.1 ++ later.1, later.2)

/-- A way to cut texts into clusters. -/
structure Clustering where
  graphemes : Text → List Text
  flatten_graphemes : ∀ text, (graphemes text).flatten = text

section

variable (lineDiffer clusterDiffer : Differ Text) (clustering : Clustering)

/-- Edit one line at a position, and the position behind it. -/
def applyLine (pos : UInt32) (old new : Text) : List TextEdit × UInt32 :=
  applyLineFrom (clustering.graphemes old) (clustering.graphemes new) pos
    (clusterDiffer.script (clustering.graphemes old) (clustering.graphemes new))

/-- Lines edited line against line, and the position behind them. -/
def applyLines (pos : UInt32) : List (Text × Text) → List TextEdit × UInt32
  | [] => ([], pos)
  | pair :: pairs =>
      let edited := applyLine clusterDiffer clustering pos pair.1 pair.2
      let later := applyLines edited.2 pairs
      (edited.1 ++ later.1, later.2)

/-- The loop of `apply_target` over the operations between the lines of two texts. -/
def applyTargetFrom (old new : List Text) (pos : UInt32) : List DiffOp → List TextEdit
  | [] => []
  | .equal oldIndex _ len :: ops =>
      applyTargetFrom old new (pos + units (rangeOf old oldIndex len)) ops
  | .delete oldIndex oldLen _ :: ops =>
      .remove pos (units (rangeOf old oldIndex oldLen)) :: applyTargetFrom old new pos ops
  | .insert _ newIndex newLen :: ops =>
      let inserted := insertLines pos (rangeOf new newIndex newLen)
      inserted.1 ++ applyTargetFrom old new inserted.2 ops
  | .replace oldIndex oldLen newIndex newLen :: ops =>
      if oldLen = newLen then
        let edited := applyLines clusterDiffer clustering pos
          ((rangeOf old oldIndex oldLen).zip (rangeOf new newIndex newLen))
        edited.1 ++ applyTargetFrom old new edited.2 ops
      else
        let inserted := insertLines pos (rangeOf new newIndex newLen)
        .remove pos (units (rangeOf old oldIndex oldLen)) ::
          (inserted.1 ++ applyTargetFrom old new inserted.2 ops)

/-- The edits that morph a text into a target. -/
def applyTarget (current target : Text) : List TextEdit :=
  let old := splitInclusive current
  let new := splitInclusive target
  applyTargetFrom clusterDiffer clustering old new 0 (lineDiffer.script old new)

end

theorem utf16Size_pos (char : Char) : 0 < utf16Size char := by
  rw [utf16Size]
  split <;> decide

@[simp] theorem utf16Len_nil : utf16Len [] = 0 := rfl

@[simp] theorem utf16Len_cons (char : Char) (text : Text) :
    utf16Len (char :: text) = utf16Size char + utf16Len text := rfl

@[simp] theorem utf16Len_append (front back : Text) :
    utf16Len (front ++ back) = utf16Len front + utf16Len back := by
  induction front with
  | nil => exact (Nat.zero_add _).symm
  | cons char front induction => rw [List.cons_append, utf16Len_cons, utf16Len_cons, induction,
      Nat.add_assoc]

theorem eq_nil_of_utf16Len {text : Text} (empty : utf16Len text = 0) : text = [] := by
  cases text with
  | nil => rfl
  | cons char text =>
      have positive := utf16Size_pos char
      rw [utf16Len_cons] at empty
      omega

@[simp] theorem splitUnits_append (front back : Text) :
    splitUnits (front ++ back) (utf16Len front) = some (front, back) := by
  induction front with
  | nil => cases back <;> rfl
  | cons char front induction =>
      obtain ⟨size, same⟩ := Nat.exists_eq_add_one_of_ne_zero (utf16Size_pos char).ne'
      have total : utf16Len (char :: front) = size + utf16Len front + 1 := by
        rw [utf16Len_cons, same]
        omega
      have rest : size + utf16Len front + 1 - utf16Size char = utf16Len front := by omega
      rw [total, List.cons_append, splitUnits, if_pos (by omega), rest, induction]
      rfl

theorem toNat_utf16 {text : Text} (small : utf16Len text < 2 ^ 32) :
    (utf16 text).toNat = utf16Len text := UInt32.toNat_ofNat_of_lt' small

variable {slices : List Text} {pos : UInt32}

theorem toNat_foldl_units {start : UInt32}
    (small : start.toNat + utf16Len slices.flatten < 2 ^ 32) :
    ((slices.map utf16).foldl (· + ·) start).toNat = start.toNat + utf16Len slices.flatten := by
  induction slices generalizing start with
  | nil => rfl
  | cons slice slices induction =>
      rw [List.flatten_cons, utf16Len_append] at small ⊢
      have first : (start + utf16 slice).toNat = start.toNat + utf16Len slice := by
        rw [UInt32.toNat_add, toNat_utf16 (by omega), Nat.mod_eq_of_lt (by omega)]
      rw [List.map_cons, List.foldl_cons, induction (by omega), first, Nat.add_assoc]

theorem toNat_units (small : utf16Len slices.flatten < 2 ^ 32) :
    (units slices).toNat = utf16Len slices.flatten := by
  have whole := @toNat_foldl_units slices 0 (by simpa using small)
  rw [units, whole]
  exact Nat.zero_add _

/-- Edits that carry a text from one seam to a later one: before the seam are clusters of the
target, behind it clusters of the old text, and every edit is made at the seam. -/
inductive Carries : List TextEdit → (before after before' after' : List Text) → Prop
  | done (before after : List Text) : Carries [] before after before after
  | pass {edits : List TextEdit} {before kept came after before' after' : List Text}
      (same : kept.flatten = came.flatten)
      (later : Carries edits (before ++ came) after before' after') :
      Carries edits before (kept ++ after) before' after'
  | insert {edits : List TextEdit} {index : UInt32} {before came after before' after' : List Text}
      (place : index.toNat = utf16Len before.flatten)
      (later : Carries edits (before ++ came) after before' after') :
      Carries (.insert index came.flatten :: edits) before after before' after'
  | remove {edits : List TextEdit} {index len : UInt32}
      {before gone after before' after' : List Text}
      (place : index.toNat = utf16Len before.flatten)
      (size : len.toNat = utf16Len gone.flatten)
      (later : Carries edits before after before' after') :
      Carries (.remove index len :: edits) before (gone ++ after) before' after'

/-- An edit at a seam between clusters of the new and of the old text. -/
inductive AtSeam (old new : List Text) (content : Text) : TextEdit → Prop
  | insert {index : UInt32} {before came later gone after : List Text}
      (target : new = before ++ came ++ later) (current : old = gone ++ after)
      (here : content = before.flatten ++ after.flatten)
      (place : index.toNat = utf16Len before.flatten) :
      AtSeam old new content (.insert index came.flatten)
  | remove {index len : UInt32} {before later gone removed after : List Text}
      (target : new = before ++ later) (current : old = gone ++ (removed ++ after))
      (here : content = before.flatten ++ (removed.flatten ++ after.flatten))
      (place : index.toNat = utf16Len before.flatten)
      (size : len.toNat = utf16Len removed.flatten) :
      AtSeam old new content (.remove index len)

namespace Carries

variable {edits more : List TextEdit} {before after before' after' last rest : List Text}

theorem append (first : Carries edits before after before' after')
    (second : Carries more before' after' last rest) :
    Carries (edits ++ more) before after last rest := by
  induction first with
  | done => exact second
  | pass same _ induction => exact .pass same (induction second)
  | insert place _ induction => exact .insert place (induction second)
  | remove place size _ induction => exact .remove place size (induction second)

theorem skip {kept came : List Text} (same : kept.flatten = came.flatten)
    (before after : List Text) : Carries [] before (kept ++ after) (before ++ came) after :=
  .pass same (.done _ _)

section

variable (carries : Carries edits before after before' after')
include carries

theorem applyEdits_eq :
    applyEdits (before.flatten ++ after.flatten) edits =
      some (before'.flatten ++ after'.flatten) := by
  induction carries with
  | done => rfl
  | @pass edits before kept came after _ _ same _ induction =>
      rw [List.flatten_append, List.append_assoc] at induction
      rwa [List.flatten_append, same]
  | @insert edits index before came after _ _ place _ induction =>
      rw [List.flatten_append, List.append_assoc] at induction
      rw [applyEdits, TextEdit.apply, place, splitUnits_append]
      simpa using induction
  | @remove edits index len before gone after _ _ place size _ induction =>
      rw [applyEdits, TextEdit.apply, place, size, splitUnits_append, List.flatten_append]
      simpa using induction

theorem grows : before <+: before' ∧ after' <:+ after := by
  induction carries with
  | done => exact ⟨List.prefix_refl _, List.suffix_refl _⟩
  | pass _ _ induction =>
      exact ⟨(List.prefix_append _ _).trans induction.1,
        induction.2.trans (List.suffix_append _ _)⟩
  | insert _ _ induction => exact ⟨(List.prefix_append _ _).trans induction.1, induction.2⟩
  | remove _ _ _ induction => exact ⟨induction.1, induction.2.trans (List.suffix_append _ _)⟩

/-- Every edit is made at a seam, in the text the edits before it lead to. -/
theorem atSeam {old : List Text} (current : after <:+ old) {front : List TextEdit} {edit : TextEdit}
    {back : List TextEdit} (split : edits = front ++ edit :: back) :
    ∃ content, applyEdits (before.flatten ++ after.flatten) front = some content ∧
      AtSeam old before' content edit := by
  induction carries generalizing front with
  | done => simp at split
  | @pass edits before kept came after _ _ same _ induction =>
      obtain ⟨content, run, seam⟩ := induction ((List.suffix_append _ _).trans current) split
      refine ⟨content, ?_, seam⟩
      rw [List.flatten_append, List.append_assoc] at run
      rwa [List.flatten_append, same]
  | @insert edits index before came after _ _ place later induction =>
      cases front with
      | nil =>
          obtain ⟨rfl, -⟩ := List.cons.inj split
          obtain ⟨rest, target⟩ := later.grows.1
          obtain ⟨gone, same⟩ := current
          exact ⟨_, rfl, .insert target.symm same.symm rfl place⟩
      | cons first front =>
          obtain ⟨rfl, behind⟩ := List.cons.inj split
          obtain ⟨content, run, seam⟩ := induction current behind
          refine ⟨content, ?_, seam⟩
          rw [List.flatten_append, List.append_assoc] at run
          rw [applyEdits, TextEdit.apply, place, splitUnits_append]
          simpa using run
  | @remove edits index len before gone after _ _ place size later induction =>
      cases front with
      | nil =>
          obtain ⟨rfl, -⟩ := List.cons.inj split
          obtain ⟨rest, target⟩ := later.grows.1
          obtain ⟨passed, same⟩ := current
          exact ⟨_, rfl, .remove target.symm same.symm (by rw [List.flatten_append]) place size⟩
      | cons first front =>
          obtain ⟨rfl, behind⟩ := List.cons.inj split
          obtain ⟨content, run, seam⟩ := induction ((List.suffix_append _ _).trans current) behind
          refine ⟨content, ?_, seam⟩
          rw [applyEdits, TextEdit.apply, place, size, splitUnits_append, List.flatten_append]
          simpa using run

end

end Carries

section

variable {items : List Text} {start : Nat} {inside rest : List Text}
  (ahead : items.drop start = inside ++ rest)
include ahead

theorem rangeOf_drop : rangeOf items start inside.length = inside := by
  rw [rangeOf, ahead, List.take_left]

theorem drop_add : items.drop (start + inside.length) = rest := by
  rw [← List.drop_drop, ahead, List.drop_left]

end

theorem toNat_add_units {before came : List Text} (place : pos.toNat = utf16Len before.flatten)
    (small : utf16Len (before ++ came).flatten < 2 ^ 32) :
    (pos + units came).toNat = utf16Len (before ++ came).flatten := by
  rw [List.flatten_append, utf16Len_append] at small ⊢
  rw [UInt32.toNat_add, place, toNat_units (by omega), Nat.mod_eq_of_lt small]

theorem editClusters_carries {before : List Text} (gone came after : List Text)
    (place : pos.toNat = utf16Len before.flatten)
    (small : utf16Len (before ++ came).flatten < 2 ^ 32)
    (goneSmall : utf16Len gone.flatten < 2 ^ 32) :
    Carries (editClusters pos gone came).1 before (gone ++ after) (before ++ came) after ∧
      (editClusters pos gone came).2.toNat = utf16Len (before ++ came).flatten := by
  have removal : Carries (if 0 < units gone then [.remove pos (units gone)] else []) before
      (gone ++ after) before after := by
    split
    · exact .remove place (toNat_units goneSmall) (.done _ _)
    next none =>
      have empty : utf16Len gone.flatten = 0 := by
        rw [← toNat_units goneSmall]
        simpa [UInt32.lt_iff_toNat_lt] using none
      have nothing : gone.flatten = ([] : List Text).flatten := eq_nil_of_utf16Len empty
      have same := Carries.skip nothing before after
      rwa [List.append_nil] at same
  rw [editClusters]
  split
  next empty =>
    have nothing : ([] : List Text).flatten = came.flatten := (List.isEmpty_iff.mp empty).symm
    refine ⟨?_, ?_⟩
    · have both := removal.append (Carries.skip nothing before after)
      rwa [List.append_nil] at both
    · rw [place, List.flatten_append, ← nothing]
      simp
  · refine ⟨removal.append (.insert place (.done _ _)), ?_⟩
    rw [List.flatten_append, utf16Len_append] at small ⊢
    rw [UInt32.toNat_add, place, toNat_utf16 (by omega), Nat.mod_eq_of_lt small]

theorem applyLineFrom_carries {old new : List Text} {oldAt newAt : Nat} {ahead coming : List Text}
    {ops : List DiffOp} (script : IsScript oldAt newAt ahead coming ops) :
    ∀ {pos : UInt32} {before : List Text} (after : List Text),
      old.drop oldAt = ahead → new.drop newAt = coming →
      pos.toNat = utf16Len before.flatten →
      utf16Len (before ++ coming).flatten < 2 ^ 32 → utf16Len ahead.flatten < 2 ^ 32 →
        Carries (applyLineFrom old new pos ops).1 before (ahead ++ after) (before ++ coming) after ∧
          (applyLineFrom old new pos ops).2.toNat = utf16Len (before ++ coming).flatten := by
  induction script with
  | done =>
      intro pos before after _ _ place _ _
      rw [List.append_nil]
      exact ⟨.done _ _, place⟩
  | @equal oldAt newAt kept ahead coming ops _ induction =>
      intro pos before after atOld atNew place small oldSmall
      rw [← List.append_assoc] at small
      rw [List.flatten_append, utf16Len_append] at oldSmall
      have total := small
      rw [List.flatten_append, utf16Len_append] at total
      have next := toNat_add_units place (by omega : utf16Len (before ++ kept).flatten < 2 ^ 32)
      obtain ⟨carries, stop⟩ := induction after (drop_add atOld) (drop_add atNew) next small
        (by omega)
      rw [applyLineFrom, rangeOf_drop atOld, ← List.append_assoc, List.append_assoc]
      exact ⟨.pass rfl carries, stop⟩
  | @delete oldAt newAt gone ahead coming ops _ induction =>
      intro pos before after atOld atNew place small oldSmall
      rw [List.flatten_append, utf16Len_append] at oldSmall
      have total := small
      rw [List.flatten_append, utf16Len_append] at total
      obtain ⟨edits, stop⟩ := editClusters_carries gone [] (ahead ++ after) place
        (by rw [List.append_nil]; omega) (by omega)
      rw [List.append_nil] at edits stop
      obtain ⟨carries, last⟩ := induction after (drop_add atOld) atNew stop small (by omega)
      rw [applyLineFrom, rangeOf_drop atOld, List.append_assoc]
      exact ⟨edits.append carries, last⟩
  | @insert oldAt newAt came ahead coming ops _ induction =>
      intro pos before after atOld atNew place small oldSmall
      rw [← List.append_assoc] at small
      have total := small
      rw [List.flatten_append, utf16Len_append] at total
      obtain ⟨edits, stop⟩ := editClusters_carries [] came (ahead ++ after) place
        (by omega) (by simp)
      obtain ⟨carries, last⟩ := induction after atOld (drop_add atNew) stop small oldSmall
      rw [applyLineFrom, rangeOf_drop atNew, ← List.append_assoc]
      exact ⟨edits.append carries, last⟩
  | @replace oldAt newAt gone came ahead coming ops _ induction =>
      intro pos before after atOld atNew place small oldSmall
      rw [← List.append_assoc] at small
      rw [List.flatten_append, utf16Len_append] at oldSmall
      have total := small
      rw [List.flatten_append, utf16Len_append] at total
      obtain ⟨edits, stop⟩ := editClusters_carries gone came (ahead ++ after) place
        (by omega) (by omega)
      obtain ⟨carries, last⟩ := induction after (drop_add atOld) (drop_add atNew) stop small
        (by omega)
      rw [applyLineFrom, rangeOf_drop atOld, rangeOf_drop atNew, ← List.append_assoc,
        List.append_assoc]
      exact ⟨edits.append carries, last⟩

section

variable {lineDiffer clusterDiffer : Differ Text} {clustering : Clustering}

/-- The clusters of lines. -/
def clustersOf (clustering : Clustering) (lines : List Text) : List Text :=
  lines.flatMap clustering.graphemes

@[simp] theorem clustersOf_nil : clustersOf clustering [] = [] := rfl

@[simp] theorem clustersOf_cons (line : Text) (lines : List Text) :
    clustersOf clustering (line :: lines) =
      clustering.graphemes line ++ clustersOf clustering lines := List.flatMap_cons

@[simp] theorem clustersOf_append (front back : List Text) :
    clustersOf clustering (front ++ back) =
      clustersOf clustering front ++ clustersOf clustering back := List.flatMap_append

@[simp] theorem flatten_clustersOf (lines : List Text) :
    (clustersOf clustering lines).flatten = lines.flatten := by
  induction lines with
  | nil => rfl
  | cons line lines induction =>
      rw [clustersOf_cons, List.flatten_append, clustering.flatten_graphemes, induction]
      rfl

theorem applyLine_carries {pos : UInt32} {before : List Text} (old new : Text)
    (after : List Text) (place : pos.toNat = utf16Len before.flatten)
    (small : utf16Len before.flatten + utf16Len new < 2 ^ 32) (oldSmall : utf16Len old < 2 ^ 32) :
    Carries (applyLine clusterDiffer clustering pos old new).1 before
        (clustering.graphemes old ++ after) (before ++ clustering.graphemes new) after ∧
      (applyLine clusterDiffer clustering pos old new).2.toNat =
        utf16Len (before ++ clustering.graphemes new).flatten := by
  refine applyLineFrom_carries (clusterDiffer.isScript _ _) after rfl rfl place ?_ ?_
  · rwa [List.flatten_append, clustering.flatten_graphemes, utf16Len_append]
  · rwa [clustering.flatten_graphemes]

theorem applyLines_carries {olds news : List Text} (paired : olds.length = news.length) :
    ∀ {pos : UInt32} {before : List Text} (after : List Text),
      pos.toNat = utf16Len before.flatten →
      utf16Len before.flatten + utf16Len news.flatten < 2 ^ 32 →
      utf16Len olds.flatten < 2 ^ 32 →
        Carries (applyLines clusterDiffer clustering pos (olds.zip news)).1 before
            (clustersOf clustering olds ++ after) (before ++ clustersOf clustering news) after ∧
          (applyLines clusterDiffer clustering pos (olds.zip news)).2.toNat =
            utf16Len (before ++ clustersOf clustering news).flatten := by
  induction olds generalizing news with
  | nil =>
      obtain rfl := List.length_eq_zero_iff.mp paired.symm
      intro pos before after place _ _
      rw [clustersOf_nil, List.append_nil]
      exact ⟨.done _ _, place⟩
  | cons old olds induction =>
      obtain ⟨new, news, rfl⟩ := List.exists_cons_of_length_eq_add_one paired.symm
      intro pos before after place small oldSmall
      rw [List.flatten_cons, utf16Len_append] at small oldSmall
      obtain ⟨edits, stop⟩ := @applyLine_carries clusterDiffer clustering _ _ old new
        (clustersOf clustering olds ++ after) place (by omega) (by omega)
      obtain ⟨carries, last⟩ := induction (Nat.succ.inj paired) after stop
        (by rw [List.flatten_append, clustering.flatten_graphemes, utf16Len_append]; omega)
        (by omega)
      rw [List.zip_cons_cons, applyLines, clustersOf_cons, clustersOf_cons, List.append_assoc,
        ← List.append_assoc before]
      exact ⟨edits.append carries, last⟩

theorem insertLines_carries (lines : List Text) : ∀ {pos : UInt32} {before : List Text}
    (after : List Text), pos.toNat = utf16Len before.flatten →
      utf16Len before.flatten + utf16Len lines.flatten < 2 ^ 32 →
        Carries (insertLines pos lines).1 before after (before ++ clustersOf clustering lines)
            after ∧
          (insertLines pos lines).2.toNat =
            utf16Len (before ++ clustersOf clustering lines).flatten := by
  induction lines with
  | nil =>
      intro pos before after place _
      rw [clustersOf_nil, List.append_nil]
      exact ⟨.done _ _, place⟩
  | cons line lines induction =>
      intro pos before after place small
      rw [List.flatten_cons, utf16Len_append] at small
      have next : (pos + utf16 line).toNat =
          utf16Len (before ++ clustering.graphemes line).flatten := by
        rw [List.flatten_append, clustering.flatten_graphemes, utf16Len_append, UInt32.toNat_add,
          place, toNat_utf16 (by omega), Nat.mod_eq_of_lt (by omega)]
      obtain ⟨carries, last⟩ := induction after next
        (by rw [List.flatten_append, clustering.flatten_graphemes, utf16Len_append]; omega)
      have inserted := Carries.insert place carries
      rw [clustering.flatten_graphemes] at inserted
      rw [clustersOf_cons, ← List.append_assoc]
      exact ⟨inserted, last⟩

theorem applyTargetFrom_carries {old new : List Text} {oldAt newAt : Nat}
    {ahead coming : List Text} {ops : List DiffOp}
    (script : IsScript oldAt newAt ahead coming ops) :
    ∀ {pos : UInt32} {before : List Text}, old.drop oldAt = ahead → new.drop newAt = coming →
      pos.toNat = utf16Len before.flatten →
      utf16Len before.flatten + utf16Len coming.flatten < 2 ^ 32 →
      utf16Len ahead.flatten < 2 ^ 32 →
        Carries (applyTargetFrom clusterDiffer clustering old new pos ops) before
          (clustersOf clustering ahead) (before ++ clustersOf clustering coming) [] := by
  induction script with
  | done =>
      intro pos before _ _ _ _ _
      rw [clustersOf_nil, List.append_nil]
      exact .done _ _
  | @equal oldAt newAt kept ahead coming ops _ induction =>
      intro pos before atOld atNew place small oldSmall
      rw [List.flatten_append, utf16Len_append] at small oldSmall
      have next : (pos + units kept).toNat =
          utf16Len (before ++ clustersOf clustering kept).flatten := by
        rw [List.flatten_append, flatten_clustersOf, utf16Len_append, UInt32.toNat_add, place,
          toNat_units (by omega), Nat.mod_eq_of_lt (by omega)]
      have carries := induction (drop_add atOld) (drop_add atNew) next
        (by rw [List.flatten_append, flatten_clustersOf, utf16Len_append]; omega) (by omega)
      rw [applyTargetFrom, rangeOf_drop atOld, clustersOf_append, clustersOf_append,
        ← List.append_assoc]
      exact .pass rfl carries
  | @delete oldAt newAt gone ahead coming ops _ induction =>
      intro pos before atOld atNew place small oldSmall
      rw [List.flatten_append, utf16Len_append] at oldSmall
      have carries := induction (drop_add atOld) atNew place small (by omega)
      rw [applyTargetFrom, rangeOf_drop atOld, clustersOf_append]
      refine .remove place ?_ carries
      rw [toNat_units (by omega), flatten_clustersOf]
  | @insert oldAt newAt came ahead coming ops _ induction =>
      intro pos before atOld atNew place small oldSmall
      rw [List.flatten_append, utf16Len_append] at small
      obtain ⟨edits, stop⟩ := @insertLines_carries clustering came _ _
        (clustersOf clustering ahead) place (by omega)
      have carries := induction atOld (drop_add atNew) stop
        (by rw [List.flatten_append, flatten_clustersOf, utf16Len_append]; omega) oldSmall
      rw [applyTargetFrom, rangeOf_drop atNew, clustersOf_append, ← List.append_assoc]
      exact edits.append carries
  | @replace oldAt newAt gone came ahead coming ops _ induction =>
      intro pos before atOld atNew place small oldSmall
      rw [List.flatten_append, utf16Len_append] at small oldSmall
      rw [applyTargetFrom, rangeOf_drop atOld, rangeOf_drop atNew, clustersOf_append,
        clustersOf_append, ← List.append_assoc]
      split
      next paired =>
        obtain ⟨edits, stop⟩ := @applyLines_carries clusterDiffer clustering gone came paired _ _
          (clustersOf clustering ahead) place (by omega) (by omega)
        have carries := induction (drop_add atOld) (drop_add atNew) stop
          (by rw [List.flatten_append, flatten_clustersOf, utf16Len_append]; omega) (by omega)
        exact edits.append carries
      · obtain ⟨edits, stop⟩ := @insertLines_carries clustering came _ _
          (clustersOf clustering ahead) place (by omega)
        have carries := induction (drop_add atOld) (drop_add atNew) stop
          (by rw [List.flatten_append, flatten_clustersOf, utf16Len_append]; omega) (by omega)
        refine .remove place ?_ (edits.append carries)
        rw [toNat_units (by omega), flatten_clustersOf]

/-- The live text becomes the target, and every edit on the way is made between clusters. -/
theorem applyTarget_morphs {current target : Text} (small : utf16Len current < 2 ^ 32)
    (targetSmall : utf16Len target < 2 ^ 32) :
    applyEdits current (applyTarget lineDiffer clusterDiffer clustering current target) =
        some target ∧
      ∀ front edit back,
        applyTarget lineDiffer clusterDiffer clustering current target = front ++ edit :: back →
          ∃ content, applyEdits current front = some content ∧
            AtSeam (clustersOf clustering (splitInclusive current))
              (clustersOf clustering (splitInclusive target)) content edit := by
  have carries := @applyTargetFrom_carries clusterDiffer clustering (splitInclusive current)
    (splitInclusive target) 0 0 (splitInclusive current) (splitInclusive target) _
    (lineDiffer.isScript _ _) 0 [] rfl rfl rfl
    (by simpa using targetSmall) (by simpa using small)
  have run := carries.applyEdits_eq
  simp only [List.flatten_nil, List.nil_append, List.append_nil, flatten_clustersOf,
    flatten_splitInclusive] at run
  refine ⟨run, ?_⟩
  intro front edit back split
  obtain ⟨content, reached, seam⟩ := carries.atSeam (List.suffix_refl _) split
  simp only [List.flatten_nil, List.nil_append, flatten_clustersOf, flatten_splitInclusive]
    at reached
  exact ⟨content, reached, seam⟩

end

/-- Every character a cluster of its own. -/
def Clustering.chars : Clustering where
  graphemes text := text.map fun char => [char]
  flatten_graphemes text := by
    induction text with
    | nil => rfl
    | cons char text induction => exact congrArg (char :: ·) induction

def liveRows : Text := "a\n😀 b\nold\n".toList

def targetRows : Text := "a\n😀 bc\nodd\n".toList

/-- Two lines for two lines, each edited from its first new cluster on. -/
theorem applyTarget_morphs_row :
    applyTarget .tail .tail .chars liveRows targetRows =
        [.remove 6 1, .insert 6 "c\n".toList, .remove 9 3, .insert 9 "dd\n".toList] ∧
      applyEdits liveRows (applyTarget .tail .tail .chars liveRows targetRows) =
          some targetRows ∧
      ∀ front edit back,
        applyTarget .tail .tail .chars liveRows targetRows = front ++ edit :: back →
          ∃ content, applyEdits liveRows front = some content ∧
            AtSeam (clustersOf .chars (splitInclusive liveRows))
              (clustersOf .chars (splitInclusive targetRows)) content edit :=
  ⟨rfl, applyTarget_morphs (by decide) (by decide)⟩

section Wrapped

/-- A line of as many code units as an index can count, and one. -/
def longLine : Text := List.replicate (2 ^ 32 - 1) 'a' ++ ['\n']

theorem utf16Len_replicate (count : Nat) : utf16Len (List.replicate count 'a') = count := by
  induction count with
  | zero => rfl
  | succ count induction =>
      rw [List.replicate_succ, utf16Len_cons, induction]
      exact Nat.add_comm 1 count

theorem utf16_longLine : utf16 longLine = 0 := by
  rw [utf16, longLine, utf16Len_append, utf16Len_replicate]
  decide

theorem splitInclusive_longLine (text : Text) (plain : '\n' ∉ text) (nonempty : text ≠ []) :
    splitInclusive (longLine ++ text) = [longLine, text] := by
  have isLine : IsLine longLine := by
    refine isLine_snoc ?_
    intro member
    exact absurd (List.eq_of_mem_replicate member) (by decide)
  rw [splitInclusive_line_append isLine, splitInclusive_of_not_mem plain nonempty]

theorem applyTarget_two (first second : Text) :
    applyTargetFrom .tail .chars [] [first, second] 0 (Differ.tail.script [] [first, second]) =
      [.remove 0 0, .insert 0 first, .insert (0 + utf16 first) second] := rfl

theorem applyEdits_two (first second : Text) :
    applyEdits [] [.remove 0 0, .insert 0 first, .insert 0 second] = some (second ++ first) := by
  have start (text : Text) : splitUnits text 0 = some ([], text) := by cases text <;> rfl
  have zero : (0 : UInt32).toNat = 0 := rfl
  simp [applyEdits, TextEdit.apply, zero, start]

/-- The position behind a line of that length is the start of the text again. -/
theorem position_wraps :
    applyEdits [] (applyTarget .tail .tail .chars [] (longLine ++ ['b'])) =
        some ('b' :: longLine) ∧
      'b' :: longLine ≠ longLine ++ ['b'] := by
  have lines := splitInclusive_longLine ['b'] (by decide) (by decide)
  constructor
  · rw [applyTarget, lines]
    have edits := applyTarget_two longLine ['b']
    rw [utf16_longLine] at edits
    exact (congrArg (applyEdits []) edits).trans (applyEdits_two longLine ['b'])
  · intro same
    have heads := congrArg List.head? same
    rw [longLine, List.head?_append, List.head?_append, List.head?_replicate,
      if_neg (by decide)] at heads
    exact absurd (Option.some.inj heads) (by decide)

end Wrapped

end Crystalline.Collab
