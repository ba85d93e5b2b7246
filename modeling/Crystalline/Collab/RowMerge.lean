import Crystalline.Collab.Rows
import Crystalline.Merging.EditScript
import Crystalline.Text.Lines
import Mathlib.Data.List.SplitBy

/-!
# Merging table rows by their cells

Where the line merge of a body conflicts, rows that both sides changed in place are merged
cell by cell.  Which lines a side replaced is read off a diff of the lines, and how alike
two lines are is measured; neither matters for what a merged line can be.
-/

namespace Crystalline.Collab

open Text Merging

def fallbackMarkerLen : Nat := 64

def maxReplacedLines : Nat := 256

/-- The runs no line may start with. -/
def markerRuns : List Text :=
  ['<', '|', '=', '>'].map fun char => List.replicate fallbackMarkerLen char

def startsLikeAMarker (line : Text) : Bool := markerRuns.any fun marker => startsWith line marker

/-- The places whose cell a side changed. -/
def changedCells (base side : List Text) : List Nat :=
  (List.range base.length).filter fun place => side[place]? ≠ base[place]?

/-- The loop over the cells of a row: each from the side that changed it. -/
def mergeCells : (base mine theirs : List Text) → Option (List Text)
  | base :: bases, mine :: mines, their :: theirs =>
      if mine = their ∨ their = base then (mergeCells bases mines theirs).map (mine :: ·)
      else if mine = base then (mergeCells bases mines theirs).map (their :: ·)
      else none
  | _, _, _ => some []

/-- Cells with a pipe between them. -/
def joinCells : List Text → Text
  | [] => []
  | [cell] => cell
  | cell :: cells => cell ++ '|' :: joinCells cells

/-- Merge one row three ways, cell by cell. -/
def mergeRow (base mine theirs : Text) : Option Text :=
  let ending := fun line : Text => endsWith line ['\n']
  if ending base ≠ ending mine || ending base ≠ ending theirs then none
  else
    let b := splitCells (lineText base)
    let m := splitCells (lineText mine)
    let t := splitCells (lineText theirs)
    if b.length ≠ m.length || b.length ≠ t.length then none
    else
      let byMine := changedCells b m
      let byTheirs := changedCells b t
      let covers := fun wide narrow : List Nat => narrow.all fun place => wide.contains place
      if (1 < byMine.length && !covers byMine byTheirs) ||
          (1 < byTheirs.length && !covers byTheirs byMine) then none
      else
        (mergeCells b m t).map fun merged =>
          joinCells merged ++ if ending base then ['\n'] else []

/-- The lines the operations replace in place; nothing when they do anything else. -/
def replacedIn : List DiffOp → Option (List Nat)
  | [] => some []
  | .equal _ _ _ :: ops => replacedIn ops
  | .replace oldIndex oldLen newIndex newLen :: ops =>
      if oldLen = newLen && oldIndex = newIndex then
        (replacedIn ops).map (List.range' oldIndex oldLen ++ ·)
      else none
  | _ :: _ => none

/-- One line of the three texts and what it is in each of them. -/
structure Trio where
  base : Text
  mine : Text
  theirs : Text
  kinds : List Row

namespace Trio

/-- One of the sides changed the line. -/
def changed (trio : Trio) : Bool := trio.mine ≠ trio.base || trio.theirs ≠ trio.base

/-- Whether the merge of cells takes a line of this kind. -/
def takes (trio : Trio) (kind : Row) : Bool :=
  match kind with
  | .data => true
  | .delimiter => trio.mine = trio.base && trio.theirs = trio.base
  | .other => false

def mergeCells (trio : Trio) : Option Text :=
  if trio.kinds.all trio.takes then mergeRow trio.base trio.mine trio.theirs else none

/-- A run of changed lines, or one line that is not changed. -/
def mergeRun (run : List Trio) : Option (List Text) :=
  if run.all fun trio => !trio.changed then some (run.map Trio.base)
  else
    let mineMoved := run.any fun trio => trio.mine ≠ trio.base
    let theirsMoved := run.any fun trio => trio.theirs ≠ trio.base
    if !theirsMoved || run.map Trio.mine = run.map Trio.theirs then some (run.map Trio.mine)
    else if !mineMoved then some (run.map Trio.theirs)
    else run.mapM Trio.mergeCells

end Trio

section Merge

variable {Ratio : Type} (differ : Differ Text) (likeness : Text → Text → Ratio)
  (greater : Ratio → Ratio → Bool)

/-- Whether a side changes the base only by replacing lines in place. -/
def replacesInPlace (base side : List Text) : Bool :=
  match replacedIn (differ.script base side) with
  | none => false
  | some replaced =>
      if maxReplacedLines < replaced.length then false
      else
        let likeness := fun b s => likeness (base[b]?.getD []) (side[s]?.getD [])
        replaced.all fun i =>
          (replaced.filter (· ≠ i)).all fun j =>
            greater (likeness i i) (likeness j i) && greater (likeness i i) (likeness i j)

/-- The lines of three texts at a place. -/
def trioAt (kinds : List (List Row)) (base mine theirs : List Text) (place : Nat) : Trio where
  base := base[place]?.getD []
  mine := mine[place]?.getD []
  theirs := theirs[place]?.getD []
  kinds := kinds.map fun side => side[place]?.getD .other

/-- The lines of three texts, by the places in the base. -/
def trios (base mine theirs : List Text) : List Trio :=
  let kinds := [tableRows base, tableRows mine, tableRows theirs]
  (List.range base.length).map fun place => trioAt kinds base mine theirs place

/-- The merge of cells for a body whose line merge conflicts. -/
def rowMerge (base mine theirs : Text) : Option Text :=
  if [base, mine, theirs].any fun text => (lines text).any startsLikeAMarker then none
  else
    let b := splitInclusive base
    let m := splitInclusive mine
    let t := splitInclusive theirs
    if !replacesInPlace differ likeness greater b m ||
        !replacesInPlace differ likeness greater b t then none
    else
      let runs := (trios b m t).splitBy fun first next => first.changed && next.changed
      match runs.mapM Trio.mergeRun with
      | none => none
      | some pieces =>
          let merged := pieces.flatten.flatten
          if (lines merged).any startsLikeAMarker then none else some merged

end Merge

/-- No pipe cuts the cell. -/
def IsCell (cell : Text) : Prop := splitCells cell = [cell]

/-- A pipe behind the cell is not escaped. -/
def IsClosed (cell : Text) : Prop := cell.getLast? ≠ some '\\'

/-- The cells of a row: a pipe goes behind each but the last. -/
def AreCells (cells : List Text) : Prop :=
  ∀ place cell, cells[place]? = some cell →
    IsCell cell ∧ (place + 1 < cells.length → IsClosed cell)

/-- A cell is the version of the side that changed it, and no two sides changed it
differently. -/
structure CellMerged (base mine theirs cell : Text) : Prop where
  byMine : theirs = base → cell = mine
  byTheirs : mine = base → cell = theirs
  alike : mine = theirs → cell = mine
  oneChange : theirs = base ∨ mine = base ∨ mine = theirs

/-- A line merged cell by cell: every cell is the version of the side that changed it. -/
structure CellsMerged (base mine theirs line : Text) : Prop where
  mine_length : (splitCells (lineText mine)).length = (splitCells (lineText base)).length
  theirs_length : (splitCells (lineText theirs)).length = (splitCells (lineText base)).length
  line_length : (splitCells (lineText line)).length = (splitCells (lineText base)).length
  ending : endsWith line ['\n'] = endsWith base ['\n']
  cell : ∀ (place : Nat) (b m t : Text), (splitCells (lineText base))[place]? = some b →
    (splitCells (lineText mine))[place]? = some m →
    (splitCells (lineText theirs))[place]? = some t →
      ∃ cell, (splitCells (lineText line))[place]? = some cell ∧ CellMerged b m t cell

/-- What a line of the three texts becomes. -/
structure LineMerged (base mine theirs line : Text) : Prop where
  byMine : theirs = base → line = mine
  byTheirs : mine = base → line = theirs
  alike : mine = theirs → line = mine
  cells : mine ≠ base → theirs ≠ base → mine ≠ theirs → CellsMerged base mine theirs line

theorem splitCellsFrom_ne_nil (escaped : Bool) (text : Text) : splitCellsFrom escaped text ≠ [] := by
  cases text with
  | nil => exact List.cons_ne_nil _ _
  | cons char text =>
      rw [splitCellsFrom]
      split
      · exact List.cons_ne_nil _ _
      · split <;> exact List.cons_ne_nil _ _

theorem splitCellsFrom_pipe (text : Text) :
    splitCellsFrom false ('|' :: text) = [] :: splitCellsFrom false text := by
  rw [splitCellsFrom, if_pos (by decide)]

variable {char : Char} {cells : List Text} {line : Text} {escaped : Bool} {text cell : Text}

theorem splitCellsFrom_other (inside : (char = '|' && !escaped) = false)
    (rest : splitCellsFrom (char = '\\') text = cell :: cells) :
    splitCellsFrom escaped (char :: text) = (char :: cell) :: cells := by
  rw [splitCellsFrom, inside, if_neg Bool.false_ne_true, rest]

theorem splitCellsFrom_cell {cell : Text} (whole : splitCellsFrom escaped cell = [cell])
    (start : cell = [] → escaped = false) (closed : IsClosed cell) (text : Text) :
    splitCellsFrom escaped (cell ++ '|' :: text) = cell :: splitCellsFrom false text := by
  induction cell generalizing escaped with
  | nil =>
      rw [start rfl]
      exact splitCellsFrom_pipe text
  | cons char cell induction =>
      have inside : (char = '|' && !escaped) = false := by
        by_contra boundary
        rw [splitCellsFrom, if_pos (Bool.not_eq_false _ ▸ boundary)] at whole
        cases whole
      obtain ⟨first, others, rest⟩ := List.exists_cons_of_ne_nil
        (splitCellsFrom_ne_nil (char = '\\') cell)
      rw [splitCellsFrom_other inside rest] at whole
      obtain ⟨same, rfl⟩ := List.cons.inj whole
      obtain rfl := (List.cons.inj same).2
      refine splitCellsFrom_other inside (induction rest ?_ ?_)
      · rintro rfl
        exact decide_eq_false fun backslash => closed (backslash ▸ rfl)
      · intro last
        refine closed ?_
        rw [List.getLast?_cons, last]
        rfl

/-- The cells of a text, the first one read from the state the text starts in. -/
theorem splitCellsFrom_shape (escaped : Bool) (text : Text) :
    ∃ first others, splitCellsFrom escaped text = first :: others ∧
      splitCellsFrom escaped first = [first] ∧
      (others ≠ [] → IsClosed first ∧ (first = [] → escaped = false)) ∧
      (∀ place cell, others[place]? = some cell →
        IsCell cell ∧ (place + 1 < others.length → IsClosed cell)) ∧
      joinCells (first :: others) = text := by
  induction text generalizing escaped with
  | nil => exact ⟨[], [], rfl, rfl, fun more => absurd rfl more, by simp, rfl⟩
  | cons char text induction =>
      by_cases boundary : (char = '|' && !escaped) = true
      · obtain ⟨isPipe, plain⟩ := Bool.and_eq_true_iff.mp boundary
        obtain rfl : char = '|' := by simpa using isPipe
        obtain rfl : escaped = false := by simpa using plain
        obtain ⟨first, others, same, whole, closed, later, joined⟩ := induction false
        refine ⟨[], first :: others, ?_, rfl, ?_, ?_, ?_⟩
        · rw [splitCellsFrom_pipe, same]
        · exact fun _ => ⟨by simp [IsClosed], fun _ => rfl⟩
        · intro place cell found
          cases place with
          | zero =>
              obtain rfl := Option.some.inj found
              refine ⟨whole, ?_⟩
              intro more
              refine (closed ?_).1
              rintro rfl
              simp at more
          | succ place =>
              obtain ⟨isCell, ends⟩ := later place cell found
              exact ⟨isCell, fun more => ends (by simpa using more)⟩
        · exact congrArg ('|' :: ·) joined
      · have inside : (char = '|' && !escaped) = false := by simpa using boundary
        obtain ⟨first, others, same, whole, closed, later, joined⟩ := induction (char = '\\')
        refine ⟨char :: first, others, splitCellsFrom_other inside same,
          splitCellsFrom_other inside whole, ?_, later, ?_⟩
        · intro more
          refine ⟨?_, fun empty => nomatch empty⟩
          obtain ⟨ends, start⟩ := closed more
          cases first with
          | nil =>
              intro last
              have backslash : char = '\\' := Option.some.inj last
              simpa [backslash] using start rfl
          | cons other first =>
              intro last
              exact ends (by rwa [List.getLast?_cons_cons] at last)
        · cases others with
          | nil => exact congrArg (char :: ·) joined
          | cons other others => exact congrArg (char :: ·) joined

theorem joinCells_splitCells (text : Text) : joinCells (splitCells text) = text := by
  obtain ⟨first, others, same, -, -, -, joined⟩ := splitCellsFrom_shape false text
  rw [splitCells, same, joined]

theorem areCells_splitCells (text : Text) : AreCells (splitCells text) := by
  obtain ⟨first, others, same, whole, closed, later, -⟩ := splitCellsFrom_shape false text
  rw [splitCells, same]
  intro place cell found
  cases place with
  | zero =>
      obtain rfl := Option.some.inj found
      refine ⟨whole, ?_⟩
      intro more
      refine (closed ?_).1
      rintro rfl
      simp at more
  | succ place =>
      obtain ⟨isCell, ends⟩ := later place cell found
      exact ⟨isCell, fun more => ends (by simpa using more)⟩

theorem splitCells_joinCells (areCells : AreCells cells) (nonempty : cells ≠ []) :
    splitCells (joinCells cells) = cells := by
  induction cells with
  | nil => exact absurd rfl nonempty
  | cons cell cells induction =>
      obtain ⟨isCell, ends⟩ := areCells 0 cell rfl
      cases cells with
      | nil => exact isCell
      | cons other cells =>
          have later : AreCells (other :: cells) := by
            intro place found here
            obtain ⟨isCell, ends⟩ := areCells (place + 1) found here
            exact ⟨isCell, fun more => ends (by simpa using more)⟩
          have rest := induction later (List.cons_ne_nil _ _)
          rw [joinCells, splitCells, splitCellsFrom_cell isCell (fun _ => rfl) (ends (by simp))]
          · exact congrArg (cell :: ·) rest
          · simp

theorem CellMerged.mem {base mine theirs cell : Text} (merged : CellMerged base mine theirs cell) :
    cell = mine ∨ cell = theirs := by
  rcases merged.oneChange with same | same | same
  · exact .inl (merged.byMine same)
  · exact .inr (merged.byTheirs same)
  · exact .inl (merged.alike same)

theorem mergeCells_cons {b m t : Text} {bs ms ts merged : List Text}
    (done : mergeCells (b :: bs) (m :: ms) (t :: ts) = some merged) :
    ∃ cell rest, merged = cell :: rest ∧ CellMerged b m t cell ∧
      mergeCells bs ms ts = some rest := by
  rw [mergeCells] at done
  split at done
  next mineWins =>
    obtain ⟨rest, later, rfl⟩ := Option.map_eq_some_iff.mp done
    refine ⟨m, rest, rfl, ⟨fun _ => rfl, ?_, fun _ => rfl, ?_⟩, later⟩
    · rintro rfl
      exact mineWins.elim id Eq.symm
    · exact mineWins.symm.imp_right .inr
  next differs =>
    split at done
    next kept =>
      obtain ⟨rest, later, rfl⟩ := Option.map_eq_some_iff.mp done
      refine ⟨t, rest, rfl, ⟨?_, fun _ => rfl, fun same => same.symm, .inr (.inl kept)⟩, later⟩
      exact fun same => absurd (.inr same) differs
    · cases done

theorem mergeCells_spec {base mine theirs merged : List Text}
    (done : mergeCells base mine theirs = some merged) (mineLength : mine.length = base.length)
    (theirsLength : theirs.length = base.length) :
    merged.length = base.length ∧
      ∀ (place : Nat) (b m t : Text), base[place]? = some b → mine[place]? = some m →
        theirs[place]? = some t → ∃ cell, merged[place]? = some cell ∧ CellMerged b m t cell := by
  induction base generalizing mine theirs merged with
  | nil =>
      obtain rfl := List.length_eq_zero_iff.mp mineLength
      obtain rfl : [] = merged := Option.some.inj done
      exact ⟨rfl, fun place b m t inBase => nomatch inBase⟩
  | cons b base induction =>
      obtain ⟨m, mine, rfl⟩ := List.exists_cons_of_length_eq_add_one mineLength
      obtain ⟨t, theirs, rfl⟩ := List.exists_cons_of_length_eq_add_one theirsLength
      obtain ⟨cell, rest, rfl, here, later⟩ := mergeCells_cons done
      obtain ⟨length, cells⟩ := induction later (Nat.succ.inj mineLength)
        (Nat.succ.inj theirsLength)
      refine ⟨congrArg (· + 1) length, ?_⟩
      intro place first second third inBase inMine inTheirs
      cases place with
      | zero =>
          obtain rfl := Option.some.inj inBase
          obtain rfl := Option.some.inj inMine
          obtain rfl := Option.some.inj inTheirs
          exact ⟨cell, rfl, here⟩
      | succ place => exact cells place first second third inBase inMine inTheirs

/-- A line of a text, the last one perhaps without its line feed. -/
def IsPiece (line : Text) : Prop := IsLine line ∨ '\n' ∉ line ∧ line ≠ []

theorem lineText_of_not_mem (absent : '\n' ∉ line) : lineText line = line := by
  rw [lineText, trimEndMatches, List.rdropWhile_eq_self_iff]
  intro nonempty last
  exact absent (beq_iff_eq.mp last ▸ List.getLast_mem nonempty)

theorem lineText_line {body : Text} (absent : '\n' ∉ body) : lineText (body ++ ['\n']) = body := by
  rw [lineText, trimEndMatches, List.rdropWhile_concat_pos _ _ _ (by decide)]
  exact lineText_of_not_mem absent

theorem not_endsWith (absent : '\n' ∉ line) : endsWith line ['\n'] = false := by
  rw [Bool.eq_false_iff]
  intro ends
  obtain ⟨front, rfl⟩ := endsWith_iff.mp ends
  exact absent (List.mem_append_right _ List.mem_cons_self)

theorem endsWith_line (body : Text) : endsWith (body ++ ['\n']) ['\n'] = true :=
  endsWith_iff.mpr (List.suffix_append _ _)

/-- The ending of a line. -/
def endingOf (line : Text) : Text := if endsWith line ['\n'] then ['\n'] else []

theorem endingOf_congr {line other : Text} (same : endsWith line ['\n'] = endsWith other ['\n']) :
    endingOf line = endingOf other := by
  rw [endingOf, endingOf, same]

theorem IsPiece.split (piece : IsPiece line) :
    '\n' ∉ lineText line ∧ line = lineText line ++ endingOf line := by
  rcases piece with ⟨body, absent, rfl⟩ | ⟨absent, -⟩
  · rw [lineText_line absent, endingOf, endsWith_line]
    exact ⟨absent, rfl⟩
  · rw [lineText_of_not_mem absent, endingOf, not_endsWith absent]
    exact ⟨absent, (List.append_nil line).symm⟩

theorem lineText_append_ending {body : Text} (absent : '\n' ∉ body) (line : Text) :
    lineText (body ++ endingOf line) = body ∧
      endsWith (body ++ endingOf line) ['\n'] = endsWith line ['\n'] := by
  rw [endingOf]
  split
  next ends => exact ⟨lineText_line absent, (endsWith_line body).trans ends.symm⟩
  next open_ =>
    rw [List.append_nil]
    exact ⟨lineText_of_not_mem absent, (not_endsWith absent).trans (by simpa using open_)⟩

/-- What `merge_row` answers: the merged cells with the ending all versions share. -/
theorem mergeRow_eq_some {base mine theirs line : Text}
    (done : mergeRow base mine theirs = some line) :
    endsWith mine ['\n'] = endsWith base ['\n'] ∧ endsWith theirs ['\n'] = endsWith base ['\n'] ∧
      (splitCells (lineText mine)).length = (splitCells (lineText base)).length ∧
      (splitCells (lineText theirs)).length = (splitCells (lineText base)).length ∧
      ∃ merged, mergeCells (splitCells (lineText base)) (splitCells (lineText mine))
          (splitCells (lineText theirs)) = some merged ∧
        line = joinCells merged ++ endingOf base := by
  rw [mergeRow] at done
  dsimp only at done
  split at done
  · cases done
  next endings =>
    split at done
    · cases done
    next lengths =>
      split at done
      · cases done
      · obtain ⟨merged, cells, rfl⟩ := Option.map_eq_some_iff.mp done
        simp only [ne_eq, Bool.or_eq_true, decide_eq_true_eq, not_or, not_not] at endings lengths
        exact ⟨endings.1.symm, endings.2.symm, lengths.1.symm, lengths.2.symm, merged, cells, rfl⟩

theorem mem_joinCells (member : char ∈ joinCells cells) :
    char = '|' ∨ ∃ cell ∈ cells, char ∈ cell := by
  fun_induction joinCells cells with
  | case1 => cases member
  | case2 cell => exact .inr ⟨cell, List.mem_cons_self, member⟩
  | case3 cell cells _ induction =>
      rcases List.mem_append.mp member with inside | behind
      · exact .inr ⟨cell, List.mem_cons_self, inside⟩
      · rcases List.mem_cons.mp behind with rfl | later
        · exact .inl rfl
        · refine (induction later).imp_right ?_
          rintro ⟨other, known, inside⟩
          exact ⟨other, List.mem_cons_of_mem _ known, inside⟩

theorem mem_joinCells_of_mem {cell : Text} (member : cell ∈ cells) (inside : char ∈ cell) :
    char ∈ joinCells cells := by
  fun_induction joinCells cells with
  | case1 => cases member
  | case2 only =>
      obtain rfl := List.mem_singleton.mp member
      exact inside
  | case3 first cells _ induction =>
      rcases List.mem_cons.mp member with rfl | later
      · exact List.mem_append_left _ inside
      · exact List.mem_append_right _ (List.mem_cons_of_mem _ (induction later))

theorem notMem_of_mem_splitCells (absent : '\n' ∉ text) (member : cell ∈ splitCells text) :
    '\n' ∉ cell := by
  intro inside
  have whole := mem_joinCells_of_mem member inside
  rw [joinCells_splitCells] at whole
  exact absent whole

theorem eq_of_cells {merged side : List Text} (length : merged.length = side.length)
    (same : ∀ (place : Nat) (cell other : Text), merged[place]? = some cell →
      side[place]? = some other → cell = other) : merged = side := by
  refine List.ext_getElem length ?_
  intro place inMerged inSide
  exact same place _ _ (List.getElem?_eq_getElem inMerged) (List.getElem?_eq_getElem inSide)

section Row

variable {base mine theirs line : Text}

/-- The cells of the three versions and of the merged row, place by place. -/
structure RowCells (base mine theirs line : Text) : Prop where
  mine_length : (splitCells (lineText mine)).length = (splitCells (lineText base)).length
  theirs_length : (splitCells (lineText theirs)).length = (splitCells (lineText base)).length
  line_length : (splitCells (lineText line)).length = (splitCells (lineText base)).length
  mine_ending : endsWith mine ['\n'] = endsWith base ['\n']
  theirs_ending : endsWith theirs ['\n'] = endsWith base ['\n']
  line_ending : endsWith line ['\n'] = endsWith base ['\n']
  line_split : '\n' ∉ lineText line ∧ line = lineText line ++ endingOf line
  cell : ∀ (place : Nat) (b m t : Text), (splitCells (lineText base))[place]? = some b →
    (splitCells (lineText mine))[place]? = some m →
    (splitCells (lineText theirs))[place]? = some t →
      ∃ cell, (splitCells (lineText line))[place]? = some cell ∧ CellMerged b m t cell

theorem rowCells_of_mergeRow (minePiece : IsPiece mine) (theirsPiece : IsPiece theirs)
    (done : mergeRow base mine theirs = some line) : RowCells base mine theirs line := by
  obtain ⟨mineEnding, theirsEnding, mineLength, theirsLength, merged, cells, rfl⟩ :=
    mergeRow_eq_some done
  obtain ⟨length, each⟩ := mergeCells_spec cells mineLength theirsLength
  -- A merged cell stands where one of the two sides has it.
  have from_ : ∀ (place : Nat) (cell : Text), merged[place]? = some cell →
      (splitCells (lineText mine))[place]? = some cell ∨
        (splitCells (lineText theirs))[place]? = some cell := by
    intro place cell found
    have inside : place < merged.length := (List.getElem?_eq_some_iff.mp found).1
    have inBase := List.getElem?_eq_getElem (l := splitCells (lineText base)) (i := place)
      (by omega)
    have inMine := List.getElem?_eq_getElem (l := splitCells (lineText mine)) (i := place)
      (by omega)
    have inTheirs := List.getElem?_eq_getElem (l := splitCells (lineText theirs)) (i := place)
      (by omega)
    obtain ⟨other, there, isMerged⟩ := each place _ _ _ inBase inMine inTheirs
    obtain rfl : cell = other := Option.some.inj (found.symm.trans there)
    rcases isMerged.mem with same | same
    · exact .inl (same ▸ inMine)
    · exact .inr (same ▸ inTheirs)
  have areCells : AreCells merged := by
    intro place cell found
    rcases from_ place cell found with inMine | inTheirs
    · obtain ⟨isCell, ends⟩ := areCells_splitCells _ place cell inMine
      exact ⟨isCell, fun more => ends (by omega)⟩
    · obtain ⟨isCell, ends⟩ := areCells_splitCells _ place cell inTheirs
      exact ⟨isCell, fun more => ends (by omega)⟩
  have nonempty : merged ≠ [] := by
    rintro rfl
    exact splitCellsFrom_ne_nil false (lineText base) (List.length_eq_zero_iff.mp length.symm)
  have absent : '\n' ∉ joinCells merged := by
    intro feed
    rcases mem_joinCells feed with pipe | ⟨cell, member, inside⟩
    · exact absurd pipe (by decide)
    · obtain ⟨place, found⟩ := List.mem_iff_getElem?.mp member
      rcases from_ place cell found with inMine | inTheirs
      · exact notMem_of_mem_splitCells minePiece.split.1 (List.mem_of_getElem? inMine) inside
      · exact notMem_of_mem_splitCells theirsPiece.split.1 (List.mem_of_getElem? inTheirs) inside
  obtain ⟨text, ending⟩ := lineText_append_ending absent base
  have split : splitCells (lineText (joinCells merged ++ endingOf base)) = merged := by
    rw [text, splitCells_joinCells areCells nonempty]
  refine ⟨mineLength, theirsLength, by rw [split, length], mineEnding, theirsEnding, ending,
    ⟨by rwa [text], ?_⟩, by rwa [split]⟩
  rw [text]
  exact congrArg (joinCells merged ++ ·) (endingOf_congr ending).symm

namespace RowCells

section

variable (row : RowCells base mine theirs line)
include row

theorem eq_side {side : Text} (piece : IsPiece side)
    (ending : endsWith side ['\n'] = endsWith base ['\n'])
    (same : splitCells (lineText line) = splitCells (lineText side)) : line = side := by
  have texts : lineText line = lineText side := by
    rw [← joinCells_splitCells (lineText line), same, joinCells_splitCells]
  rw [row.line_split.2, piece.split.2, texts]
  exact congrArg (lineText side ++ ·) (endingOf_congr (row.line_ending.trans ending.symm))

theorem eq_of_each {side : Text}
    (length : (splitCells (lineText side)).length = (splitCells (lineText base)).length)
    (each : ∀ (place : Nat) (b m t cell other : Text),
      (splitCells (lineText base))[place]? = some b →
      (splitCells (lineText mine))[place]? = some m →
      (splitCells (lineText theirs))[place]? = some t →
      (splitCells (lineText side))[place]? = some other → CellMerged b m t cell → cell = other) :
    splitCells (lineText line) = splitCells (lineText side) := by
  refine eq_of_cells (row.line_length.trans length.symm) ?_
  intro place cell other found there
  have inside : place < (splitCells (lineText line)).length :=
    (List.getElem?_eq_some_iff.mp found).1
  have inBase := List.getElem?_eq_getElem (l := splitCells (lineText base)) (i := place)
    (by have := row.line_length; omega)
  have inMine := List.getElem?_eq_getElem (l := splitCells (lineText mine)) (i := place)
    (by have := row.line_length; have := row.mine_length; omega)
  have inTheirs := List.getElem?_eq_getElem (l := splitCells (lineText theirs)) (i := place)
    (by have := row.line_length; have := row.theirs_length; omega)
  obtain ⟨cell', known, merged⟩ := row.cell place _ _ _ inBase inMine inTheirs
  obtain rfl : cell = cell' := Option.some.inj (found.symm.trans known)
  exact each place _ _ _ cell other inBase inMine inTheirs there merged

theorem lineMerged (minePiece : IsPiece mine) (theirsPiece : IsPiece theirs) :
    LineMerged base mine theirs line where
  byMine same := by
    refine row.eq_side minePiece row.mine_ending (row.eq_of_each row.mine_length ?_)
    intro place b m t cell other inBase inMine inTheirs inSide merged
    rw [same, inBase] at inTheirs
    rw [inMine] at inSide
    rw [merged.byMine (Option.some.inj inTheirs).symm, Option.some.inj inSide]
  byTheirs same := by
    refine row.eq_side theirsPiece row.theirs_ending (row.eq_of_each row.theirs_length ?_)
    intro place b m t cell other inBase inMine inTheirs inSide merged
    rw [same, inBase] at inMine
    rw [inTheirs] at inSide
    rw [merged.byTheirs (Option.some.inj inMine).symm, Option.some.inj inSide]
  alike same := by
    refine row.eq_side minePiece row.mine_ending (row.eq_of_each row.mine_length ?_)
    intro place b m t cell other inBase inMine inTheirs inSide merged
    rw [← same, inMine] at inTheirs
    rw [inMine] at inSide
    rw [merged.alike (Option.some.inj inTheirs), Option.some.inj inSide]
  cells _ _ _ := ⟨row.mine_length, row.theirs_length, row.line_length, row.line_ending, row.cell⟩

theorem isLine (ends : endsWith base ['\n'] = true) : IsLine line := by
  obtain ⟨absent, split⟩ := row.line_split
  rw [endingOf, row.line_ending, if_pos ends] at split
  exact ⟨lineText line, absent, split⟩

theorem piece (minePiece : IsPiece mine) (theirsPiece : IsPiece theirs) : IsPiece line := by
  by_cases ends : endsWith line ['\n'] = true
  · exact .inl (row.isLine (row.line_ending ▸ ends))
  · obtain ⟨absent, split⟩ := row.line_split
    rw [endingOf, if_neg ends, List.append_nil] at split
    refine .inr ⟨split ▸ absent, ?_⟩
    -- An empty row has one empty cell, and so has the side the cell is from.
    rintro rfl
    have single : (splitCells (lineText base)).length = 1 := row.line_length.symm
    have empty {side : Text} (piece : IsPiece side)
        (ending : endsWith side ['\n'] = endsWith base ['\n'])
        (cells : splitCells (lineText side) = [[]]) : False := by
      have text : lineText side = [] := by
        rw [← joinCells_splitCells (lineText side), cells]
        rfl
      have open_ : endsWith side ['\n'] ≠ true := by rwa [ending, ← row.line_ending]
      rcases piece with ⟨body, -, rfl⟩ | ⟨noFeed, nonempty⟩
      · exact open_ (endsWith_line body)
      · exact nonempty (lineText_of_not_mem noFeed ▸ text)
    obtain ⟨b, inBase⟩ := List.length_eq_one_iff.mp single
    obtain ⟨m, inMine⟩ := List.length_eq_one_iff.mp (row.mine_length.trans single)
    obtain ⟨t, inTheirs⟩ := List.length_eq_one_iff.mp (row.theirs_length.trans single)
    obtain ⟨cell, found, merged⟩ := row.cell 0 b m t (by rw [inBase]; rfl) (by rw [inMine]; rfl)
      (by rw [inTheirs]; rfl)
    obtain rfl : [] = cell := Option.some.inj found
    rcases merged.mem with rfl | rfl
    · exact empty minePiece row.mine_ending inMine
    · exact empty theirsPiece row.theirs_ending inTheirs

end

end RowCells

end Row

/-- What a line of the result has to do with the three texts. -/
structure Trio.Merged (trio : Trio) (line : Text) : Prop where
  merged : LineMerged trio.base trio.mine trio.theirs line
  isLine : IsLine trio.base → IsLine trio.mine → IsLine trio.theirs → IsLine line
  isPiece : IsPiece line

structure Trio.Pieces (trio : Trio) : Prop where
  base : IsPiece trio.base
  mine : IsPiece trio.mine
  theirs : IsPiece trio.theirs

theorem forall₂_of_mapM {Item Answer : Type} {call : Item → Option Answer}
    {holds : Item → Answer → Prop} {items : List Item} {answers : List Answer}
    (each : ∀ item ∈ items, ∀ answer, call item = some answer → holds item answer)
    (done : items.mapM call = some answers) : List.Forall₂ holds items answers := by
  induction items generalizing answers with
  | nil =>
      obtain rfl : [] = answers := by simpa using done
      exact .nil
  | cons item items induction =>
      rw [List.mapM_cons] at done
      obtain ⟨answer, first, rest⟩ := Option.bind_eq_some_iff.mp done
      obtain ⟨later, all, same⟩ := Option.bind_eq_some_iff.mp rest
      obtain rfl : answer :: later = answers := Option.some.inj same
      exact .cons (each item List.mem_cons_self answer first)
        (induction (fun other member => each other (List.mem_cons_of_mem _ member)) all)

namespace Trio

variable {trio : Trio}

theorem merged_mine (pieces : trio.Pieces)
    (kept : trio.theirs = trio.base ∨ trio.mine = trio.theirs) : trio.Merged trio.mine where
  merged :=
    { byMine := fun _ => rfl
      byTheirs := fun same => by
        rcases kept with other | other
        · rw [same, other]
        · exact other
      alike := fun _ => rfl
      cells := fun _ differs apart => by
        rcases kept with other | other
        · exact absurd other differs
        · exact absurd other apart }
  isLine := fun _ isLine _ => isLine
  isPiece := pieces.mine

theorem merged_theirs (pieces : trio.Pieces) (kept : trio.mine = trio.base) :
    trio.Merged trio.theirs where
  merged :=
    { byMine := fun same => same.trans kept.symm
      byTheirs := fun _ => rfl
      alike := fun same => same.symm
      cells := fun differs => absurd kept differs }
  isLine := fun _ _ isLine => isLine
  isPiece := pieces.theirs

theorem merged_cells {line : Text} (pieces : trio.Pieces) (done : trio.mergeCells = some line) :
    trio.Merged line := by
  rw [mergeCells] at done
  split at done
  · have row := rowCells_of_mergeRow pieces.mine pieces.theirs done
    refine ⟨row.lineMerged pieces.mine pieces.theirs, ?_, row.piece pieces.mine pieces.theirs⟩
    rintro ⟨body, -, same⟩ - -
    exact row.isLine (same ▸ endsWith_line body)
  · cases done

theorem merged_run {run : List Trio} {pieces : List Text} (valid : ∀ trio ∈ run, trio.Pieces)
    (done : mergeRun run = some pieces) : List.Forall₂ Merged run pieces := by
  have side (line : Trio → Text) (each : ∀ trio ∈ run, trio.Merged (line trio)) :
      List.Forall₂ Merged run (run.map line) :=
    List.forall₂_map_right_iff.mpr (List.forall₂_same.mpr each)
  rw [mergeRun] at done
  dsimp only at done
  split at done
  next still =>
    obtain rfl := Option.some.inj done
    refine side base ?_
    intro trio member
    have same := List.all_eq_true.mp still trio member
    simp only [changed, Bool.not_or, Bool.and_eq_true, Bool.not_eq_true', decide_eq_false_iff_not,
      not_not] at same
    have mineKept := merged_mine (valid trio member) (.inl same.2)
    rwa [same.1] at mineKept
  · split at done
    next mineWins =>
      obtain rfl := Option.some.inj done
      refine side mine ?_
      intro trio member
      refine merged_mine (valid trio member) ?_
      rcases Bool.or_eq_true_iff.mp mineWins with kept | alike
      · refine .inl ?_
        rw [Bool.not_eq_true', List.any_eq_false] at kept
        simpa using kept trio member
      · exact .inr (List.map_inj_left.mp (of_decide_eq_true alike) trio member)
    · split at done
      next kept =>
        obtain rfl := Option.some.inj done
        refine side theirs ?_
        intro trio member
        refine merged_theirs (valid trio member) ?_
        rw [Bool.not_eq_true', List.any_eq_false] at kept
        simpa using kept trio member
      · exact forall₂_of_mapM (fun trio member _ => merged_cells (valid trio member)) done

end Trio

theorem length_of_replacedIn {oldAt newAt : Nat} {old new : List Text} {ops : List DiffOp}
    {replaced : List Nat} (script : IsScript oldAt newAt old new ops)
    (inPlace : replacedIn ops = some replaced) : new.length = old.length := by
  induction script generalizing replaced with
  | done => rfl
  | equal kept _ induction =>
      rw [List.length_append, List.length_append, induction inPlace]
  | delete => cases inPlace
  | insert => cases inPlace
  | replace gone came _ induction =>
      rw [replacedIn] at inPlace
      split at inPlace
      next same =>
        obtain ⟨later, rest, -⟩ := Option.map_eq_some_iff.mp inPlace
        simp only [Bool.and_eq_true, decide_eq_true_eq] at same
        rw [List.length_append, List.length_append, induction rest, same.1]
      · cases inPlace

section Merge

variable {Ratio : Type} {differ : Differ Text} {likeness : Text → Text → Ratio}
  {greater : Ratio → Ratio → Bool}

theorem length_of_replacesInPlace {base side : List Text}
    (inPlace : replacesInPlace differ likeness greater base side = true) :
    side.length = base.length := by
  rw [replacesInPlace] at inPlace
  split at inPlace
  · cases inPlace
  next replaced found => exact length_of_replacedIn (differ.isScript base side) found

variable {text line : Text} {b m t : Text}

theorem isPiece_of_mem (member : line ∈ splitInclusive text) : IsPiece line := by
  obtain ⟨before, after, split⟩ := List.append_of_mem member
  rcases (isLine_of_splitInclusive_eq_append split).2 with isLine | ⟨absent, nonempty, -⟩
  · exact .inl isLine
  · exact .inr ⟨absent, nonempty⟩

theorem splitInclusive_flatten_pieces {pieces : List Text} (arePieces : ∀ line ∈ pieces, IsPiece line)
    (ended : ∀ (place : Nat) (line : Text), pieces[place]? = some line →
      place + 1 < pieces.length → IsLine line) :
    splitInclusive pieces.flatten = pieces := by
  rcases List.eq_nil_or_concat pieces with rfl | ⟨front, last, rfl⟩
  · rfl
  · rw [List.concat_eq_append] at *
    have lines : ∀ line ∈ front, IsLine line := by
      intro line member
      obtain ⟨place, found⟩ := List.mem_iff_getElem?.mp member
      have inside := (List.getElem?_eq_some_iff.mp found).1
      refine ended place line ?_ (by simpa using inside)
      rw [List.getElem?_append_left inside, found]
    rcases arePieces last (by simp) with isLine | ⟨absent, nonempty⟩
    · refine splitInclusive_flatten_of_lines ?_
      intro line member
      rcases List.mem_append.mp member with inFront | isLast
      · exact lines line inFront
      · exact List.mem_singleton.mp isLast ▸ isLine
    · rw [List.flatten_append, List.flatten_singleton, splitInclusive_eq_of_lines lines absent,
        if_neg nonempty]

variable {place : Nat} {base mine theirs : Text}

theorem trios_at {base mine theirs : List Text} (inBase : base[place]? = some b)
    (inMine : mine[place]? = some m) (inTheirs : theirs[place]? = some t) :
    ∃ trio, (trios base mine theirs)[place]? = some trio ∧ trio.base = b ∧ trio.mine = m ∧
      trio.theirs = t := by
  have inside := (List.getElem?_eq_some_iff.mp inBase).1
  refine ⟨trioAt [tableRows base, tableRows mine, tableRows theirs] base mine theirs place,
    ?_, ?_⟩
  · rw [trios, List.getElem?_map, List.getElem?_range inside]
    rfl
  · simp [trioAt, inBase, inMine, inTheirs]

section

variable (mineLength : (splitInclusive mine).length = (splitInclusive base).length)
  (theirsLength : (splitInclusive theirs).length = (splitInclusive base).length)
include mineLength theirsLength

theorem pieces_of_mem_trios {trio : Trio}
    (member : trio ∈ trios (splitInclusive base) (splitInclusive mine) (splitInclusive theirs)) :
    trio.Pieces := by
  rw [trios, List.mem_map] at member
  obtain ⟨place, inside, rfl⟩ := member
  rw [List.mem_range] at inside
  have piece {text : Text} (long : place < (splitInclusive text).length) :
      IsPiece ((splitInclusive text)[place]?.getD []) := by
    rw [List.getElem?_eq_getElem long, Option.getD_some]
    exact isPiece_of_mem (List.getElem_mem long)
  exact ⟨piece inside, piece (by omega), piece (by omega)⟩

theorem merged_trios {together : Trio → Trio → Bool} {pieces : List (List Text)}
    (done : ((trios (splitInclusive base) (splitInclusive mine) (splitInclusive theirs)).splitBy
      together).mapM Trio.mergeRun = some pieces) :
    List.Forall₂ Trio.Merged
      (trios (splitInclusive base) (splitInclusive mine) (splitInclusive theirs))
      pieces.flatten := by
  have whole := List.flatten_splitBy together
    (trios (splitInclusive base) (splitInclusive mine) (splitInclusive theirs))
  have each : ∀ run ∈ (trios (splitInclusive base) (splitInclusive mine)
      (splitInclusive theirs)).splitBy together, ∀ merged, Trio.mergeRun run = some merged →
        List.Forall₂ Trio.Merged run merged := by
    intro run member merged same
    refine Trio.merged_run ?_ same
    intro trio inRun
    refine pieces_of_mem_trios mineLength theirsLength ?_
    rw [← whole, List.mem_flatten]
    exact ⟨run, member, inRun⟩
  have all := List.rel_flatten (forall₂_of_mapM each done)
  rwa [whole] at all

end

theorem line_at {base mine theirs merged : List Text}
    (all : List.Forall₂ Trio.Merged (trios base mine theirs) merged)
    (inBase : base[place]? = some b) (inMine : mine[place]? = some m)
    (inTheirs : theirs[place]? = some t) :
    ∃ (line : Text) (trio : Trio), merged[place]? = some line ∧ trio.base = b ∧ trio.mine = m ∧
      trio.theirs = t ∧ trio.Merged line := by
  obtain ⟨trio, found, sameBase, sameMine, sameTheirs⟩ := trios_at inBase inMine inTheirs
  obtain ⟨length, each⟩ := List.forall₂_iff_get.mp all
  obtain ⟨inside, here⟩ := List.getElem?_eq_some_iff.mp found
  have bound : place < merged.length := length ▸ inside
  refine ⟨merged[place], trio, List.getElem?_eq_getElem bound, sameBase, sameMine, sameTheirs, ?_⟩
  have answer := each place inside bound
  rwa [List.get_eq_getElem, List.get_eq_getElem, here] at answer

theorem isLine_at (found : (splitInclusive text)[place]? = some line)
    (more : place + 1 < (splitInclusive text).length) : IsLine line := by
  obtain ⟨inside, here⟩ := List.getElem?_eq_some_iff.mp found
  have split : splitInclusive text = (splitInclusive text).take (place + 1) ++
      (splitInclusive text)[place + 1] :: (splitInclusive text).drop (place + 2) := by
    rw [List.getElem_cons_drop, List.take_append_drop]
  refine (isLine_of_splitInclusive_eq_append split).1 line ?_
  rw [← here]
  exact List.mem_take_iff_getElem.mpr ⟨place, by omega, rfl⟩

theorem splitInclusive_merged {merged : List Text}
    (mineLength : (splitInclusive mine).length = (splitInclusive base).length)
    (theirsLength : (splitInclusive theirs).length = (splitInclusive base).length)
    (all : List.Forall₂ Trio.Merged
      (trios (splitInclusive base) (splitInclusive mine) (splitInclusive theirs)) merged) :
    splitInclusive merged.flatten = merged := by
  have size : merged.length = (splitInclusive base).length := by
    rw [← all.length_eq, trios, List.length_map, List.length_range]
  have each (place : Nat) (line : Text) (found : merged[place]? = some line) :
      ∃ (b m t : Text) (trio : Trio), (splitInclusive base)[place]? = some b ∧
        (splitInclusive mine)[place]? = some m ∧ (splitInclusive theirs)[place]? = some t ∧
          trio.base = b ∧ trio.mine = m ∧ trio.theirs = t ∧ trio.Merged line := by
    have inside := (List.getElem?_eq_some_iff.mp found).1
    have inBase := List.getElem?_eq_getElem (l := splitInclusive base) (i := place) (by omega)
    have inMine := List.getElem?_eq_getElem (l := splitInclusive mine) (i := place) (by omega)
    have inTheirs := List.getElem?_eq_getElem (l := splitInclusive theirs) (i := place) (by omega)
    obtain ⟨other, trio, known, sameBase, sameMine, sameTheirs, answer⟩ :=
      line_at all inBase inMine inTheirs
    obtain rfl : line = other := Option.some.inj (found.symm.trans known)
    exact ⟨_, _, _, trio, inBase, inMine, inTheirs, sameBase, sameMine, sameTheirs, answer⟩
  refine splitInclusive_flatten_pieces ?_ ?_
  · intro line member
    obtain ⟨place, found⟩ := List.mem_iff_getElem?.mp member
    obtain ⟨b, m, t, trio, -, -, -, -, -, -, answer⟩ := each place line found
    exact answer.isPiece
  · intro place line found more
    obtain ⟨b, m, t, trio, inBase, inMine, inTheirs, rfl, rfl, rfl, answer⟩ :=
      each place line found
    exact answer.isLine (isLine_at inBase (by omega)) (isLine_at inMine (by omega))
      (isLine_at inTheirs (by omega))

/-- What the merge of cells answers keeps every edit on its line and in its cell. -/
theorem rowMerge_merged {base mine theirs text : Text}
    (answered : rowMerge differ likeness greater base mine theirs = some text) :
    (splitInclusive mine).length = (splitInclusive base).length ∧
      (splitInclusive theirs).length = (splitInclusive base).length ∧
      (splitInclusive text).length = (splitInclusive base).length ∧
      (∀ (place : Nat) (b m t : Text), (splitInclusive base)[place]? = some b →
        (splitInclusive mine)[place]? = some m → (splitInclusive theirs)[place]? = some t →
          ∃ line, (splitInclusive text)[place]? = some line ∧ LineMerged b m t line) ∧
      ∀ line ∈ lines text, startsLikeAMarker line = false := by
  rw [rowMerge] at answered
  split at answered
  · cases answered
  · dsimp only at answered
    split at answered
    · cases answered
    next inPlace =>
      rw [Bool.or_eq_true, not_or, Bool.not_eq_true', Bool.not_eq_true', Bool.not_eq_false,
        Bool.not_eq_false] at inPlace
      have mineLength := length_of_replacesInPlace inPlace.1
      have theirsLength := length_of_replacesInPlace inPlace.2
      split at answered
      · cases answered
      next pieces done =>
        split at answered
        · cases answered
        next unmarked =>
          obtain rfl := Option.some.inj answered
          have all := merged_trios mineLength theirsLength done
          have cut := splitInclusive_merged mineLength theirsLength all
          have size : pieces.flatten.length = (splitInclusive base).length := by
            rw [← all.length_eq, trios, List.length_map, List.length_range]
          rw [cut]
          refine ⟨mineLength, theirsLength, size, ?_, ?_⟩
          · intro place b m t inBase inMine inTheirs
            obtain ⟨line, trio, found, rfl, rfl, rfl, merged⟩ := line_at all inBase inMine inTheirs
            exact ⟨line, found, merged.merged⟩
          · simpa using unmarked

end Merge

/-- A table with one row. -/
def tableOf (row : String) : Text := ("|a|b|\n|-|-|\n" ++ row ++ "\n").toList

theorem rowMerge_merged_row :
    rowMerge Differ.tail (fun _ _ => 0) (fun first second : Nat => second < first)
        (tableOf "|1|2|") (tableOf "|1x|2|") (tableOf "|1|2y|") = some (tableOf "|1x|2y|") ∧
      ∃ line, (splitInclusive (tableOf "|1x|2y|"))[2]? = some line ∧
        LineMerged "|1|2|\n".toList "|1x|2|\n".toList "|1|2y|\n".toList line := by
  have answered : rowMerge Differ.tail (fun _ _ => 0) (fun first second : Nat => second < first)
      (tableOf "|1|2|") (tableOf "|1x|2|") (tableOf "|1|2y|") = some (tableOf "|1x|2y|") := by
    decide +kernel
  exact ⟨answered, (rowMerge_merged answered).2.2.2.1 2 _ _ _ (by decide) (by decide) (by decide)⟩

end Crystalline.Collab
