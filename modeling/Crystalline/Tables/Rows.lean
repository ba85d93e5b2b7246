import Crystalline.Tables.TableModel
import Crystalline.Text.Ends

/-!
# Rows

A line of a table is an indent, cells with a pipe between each two, and blanks, with a
pipe at either edge or none.  A row is a line taken apart; the conditions under which
a line put together from parts is read as those parts are what every change of a table
has to meet.
-/

namespace Crystalline.Tables

open Marks (joined seams Unmarked Cut escapes)

/-- A pipe at an edge, where there is one. -/
def edge (present : Bool) : Units := if present then [pipe] else []

/-- The place of a pipe at an edge, where there is one. -/
def edgePlace (present : Bool) (place : Nat) : List Nat := if present then [place] else []

/-- A line taken apart. -/
structure Row where
  indent : Units
  leading : Bool
  cells : List Units
  trailing : Bool
  blanks : Units

/-- The cells with the pipes between them. -/
def Row.body (row : Row) : Units := joined pipe row.cells

def Row.text (row : Row) : Units :=
  row.indent ++ edge row.leading ++ row.body ++ edge row.trailing ++ row.blanks

/-- Where the first cell starts. -/
def Row.start (row : Row) : Nat := row.indent.length + (edge row.leading).length

/-- The row is read as it was put together. -/
structure Row.Proper (row : Row) : Prop where
  nonempty : row.cells ≠ []
  indented : ∀ unit ∈ row.indent, isIndent unit = true
  blank : ∀ unit ∈ row.blanks, isBlank unit = true
  cut : Cut backslash pipe false row.cells
  /-- The pipe at the end is no cell's escaped one. -/
  closed : row.trailing = true → escapes backslash false row.body = false
  /-- Without a pipe before it the first cell is no part of the indent, and is there. -/
  opens : row.leading = false →
    ∀ unit ∈ (row.body ++ edge row.trailing ++ row.blanks).head?,
      isIndent unit = false ∧ unit ≠ pipe
  /-- Without a pipe after it the last cell ends where the line does, and is there. -/
  ends : row.trailing = false → ∀ unit ∈ row.body.getLast?, isBlank unit = false
  last : row.trailing = false → 2 ≤ row.cells.length → row.cells.getLast? ≠ some []

/-- The cells with their places, the first at `start`. -/
def laid (start : Nat) : List Units → List TableCell
  | [] => []
  | cell :: cells =>
      { raw := cell, start, stop := start + cell.length } ::
        laid (start + cell.length + 1) cells

@[simp] theorem map_raw_laid (start : Nat) (cells : List Units) :
    (laid start cells).map TableCell.raw = cells := by
  induction cells generalizing start with
  | nil => rfl
  | cons cell cells induction => rw [laid, List.map_cons, induction]

@[simp] theorem length_laid (start : Nat) (cells : List Units) :
    (laid start cells).length = cells.length := by
  rw [← List.length_map (f := TableCell.raw), map_raw_laid]

@[simp] theorem edge_true : edge true = [pipe] := rfl

@[simp] theorem edge_false : edge false = [] := rfl

@[simp] theorem edgePlace_true (place : Nat) : edgePlace true place = [place] := rfl

@[simp] theorem edgePlace_false (place : Nat) : edgePlace false place = [] := rfl

@[simp] theorem length_edgePlace (present : Bool) (place : Nat) :
    (edgePlace present place).length = if present then 1 else 0 := by
  cases present <;> rfl

@[simp] theorem length_edge (present : Bool) :
    (edge present).length = if present then 1 else 0 := by
  cases present <;> rfl

theorem laid_append (start : Nat) (front back : List Units) :
    laid start (front ++ back) =
      laid start front ++ laid (start + (Marks.ahead pipe front).length) back := by
  induction front generalizing start with
  | nil => rfl
  | cons cell front induction =>
      rw [List.cons_append, laid, induction, laid, List.cons_append]
      congr 3
      simp only [Marks.ahead, List.flatMap_cons, List.length_append, List.length_singleton]
      omega

variable {cells : List Units} {text : Units}

theorem laid_head? (start : Nat) (present : cells ≠ []) :
    ∃ first, (laid start cells).head? = some first ∧ first.start = start := by
  obtain ⟨cell, cells, rfl⟩ := List.exists_cons_of_ne_nil present
  exact ⟨_, rfl, rfl⟩

theorem laid_getLast? (start : Nat) (present : cells ≠ []) :
    ∃ last, (laid start cells).getLast? = some last ∧
      last.stop = start + (joined pipe cells).length := by
  obtain ⟨front, last, rfl⟩ := (List.eq_nil_or_concat cells).resolve_left present
  rw [List.concat_eq_append]
  refine ⟨_, by rw [laid_append]; exact List.getLast?_concat, ?_⟩
  rw [Marks.joined_ahead pipe front (List.cons_ne_nil _ _), Marks.joined_singleton,
    List.length_append]
  exact Nat.add_assoc _ _ _

theorem cellText_laid (line : TableLine) {start : Nat} (same : line.cells = laid start cells)
    (column : Nat) : cellText line column = trim (cells[column]?.getD []) := by
  rw [cellText, ← List.getElem?_map, same, map_raw_laid]

theorem cellText_of_le {line : TableLine} {column : Nat} (short : line.cells.length ≤ column) :
    cellText line column = [] := by
  rw [cellText, List.getElem?_eq_none short]
  rfl

theorem not_isBlank_pipe : isBlank pipe = false := by decide
theorem not_isBlank_backslash : isBlank backslash = false := by decide
theorem pipe_ne_backslash : pipe ≠ backslash := by decide

theorem isBlank_of_isIndent {unit : UInt16} (isIndent : isIndent unit = true) :
    isBlank unit = true := by
  rcases Bool.or_eq_true_iff.mp isIndent with same | same <;>
    · rw [of_decide_eq_true same]
      decide

section

variable (blank : ∀ unit ∈ text, isBlank unit = true)
include blank

theorem not_mem_blanks {unit : UInt16} (other : isBlank unit = false) : unit ∉ text := by
  intro member
  rw [blank unit member] at other
  cases other

theorem unmarked_blanks (escaped : Bool) : Unmarked backslash pipe escaped text :=
  Marks.unmarked_of_not_mem (not_mem_blanks blank not_isBlank_pipe) escaped

theorem escapes_blanks : escapes backslash false text = false :=
  Marks.escapes_of_not_mem (not_mem_blanks blank not_isBlank_backslash)

end

theorem trimmedEndFrom_of_last {floor stop : Nat}
    (last : floor < stop → ∀ unit ∈ text[stop - 1]?, isBlank unit = false) :
    trimmedEndFrom text floor stop = stop := by
  cases stop with
  | zero => rfl
  | succ stop =>
      rw [trimmedEndFrom, if_neg]
      intro both
      obtain ⟨after, blank⟩ := Bool.and_eq_true_iff.mp both
      obtain ⟨unit, found, isBlank⟩ := (Option.any_eq_true _ _).mp blank
      rw [last (of_decide_eq_true after) unit found] at isBlank
      cases isBlank

theorem trimmedEnd_append {body blanks : Units} {floor : Nat}
    (blank : ∀ unit ∈ blanks, isBlank unit = true) (above : floor ≤ body.length)
    (last : floor < body.length → ∀ unit ∈ body.getLast?, isBlank unit = false) :
    trimmedEnd (body ++ blanks) floor = body.length := by
  have scan (more : Nat) (within : more ≤ blanks.length) :
      trimmedEndFrom (body ++ blanks) floor (body.length + more) = body.length := by
    induction more with
    | zero =>
        apply trimmedEndFrom_of_last
        intro after unit found
        rw [Nat.add_zero, List.getElem?_append_left (by omega)] at found
        exact last after unit (by rwa [List.getLast?_eq_getElem?])
    | succ more induction =>
        have here : (body ++ blanks)[body.length + more]? = some blanks[more] := by
          rw [List.getElem?_append_right (Nat.le_add_right _ _), Nat.add_sub_cancel_left]
          exact List.getElem?_eq_getElem _
        rw [← Nat.add_assoc, trimmedEndFrom, here, if_pos]
        · exact induction (by omega)
        · have isBlank := blank blanks[more] (List.getElem_mem _)
          simp only [Option.any_some, isBlank, Bool.and_true]
          exact decide_eq_true (by omega)
  rw [trimmedEnd, List.length_append]
  exact scan blanks.length (Nat.le_refl _)

namespace Row

variable {row : Row}

theorem text_eq (row : Row) :
    row.text =
      row.indent ++ (edge row.leading ++ (row.body ++ edge row.trailing ++ row.blanks)) := by
  simp only [Row.text, List.append_assoc]

variable {unit : UInt16}

theorem mem_text {cell : Units} (among : cell ∈ row.cells) (member : unit ∈ cell) :
    unit ∈ row.text := by
  have body : unit ∈ row.body := Marks.mem_joined_of_mem pipe among member
  rw [Row.text]
  simp [body]

theorem of_mem_text (member : unit ∈ row.text) :
    unit ∈ row.indent ∨ unit = pipe ∨ (∃ cell ∈ row.cells, unit ∈ cell) ∨
      unit ∈ row.blanks := by
  have ofEdge {present : Bool} (member : unit ∈ edge present) : unit = pipe := by
    cases present with
    | true => exact List.mem_singleton.mp member
    | false => cases member
  rcases List.mem_append.mp member with front | blank
  · rcases List.mem_append.mp front with front | closing
    · rcases List.mem_append.mp front with front | body
      · rcases List.mem_append.mp front with indent | opening
        · exact .inl indent
        · exact .inr (.inl (ofEdge opening))
      · rcases Marks.mem_joined body with same | within
        · exact .inr (.inl same)
        · exact .inr (.inr (.inl within))
    · exact .inr (.inl (ofEdge closing))
  · exact .inr (.inr (.inr blank))

section

variable (proper : row.Proper)
include proper

theorem Proper.leadingWhitespace : leadingWhitespace row.text = row.indent := by
  rw [Tables.leadingWhitespace, row.text_eq, List.takeWhile_append_of_pos proper.indented]
  have stops : (edge row.leading ++ (row.body ++ edge row.trailing ++ row.blanks)).takeWhile
      isIndent = [] := by
    cases leading : row.leading with
    | true => rfl
    | false =>
        cases found : row.body ++ edge row.trailing ++ row.blanks with
        | nil => rfl
        | cons unit rest =>
            have other := (proper.opens leading unit (by rw [found]; rfl)).1
            exact List.takeWhile_cons_of_neg (by rw [other]; decide)
  rw [stops, List.append_nil]

theorem Proper.unescapedPipes_behind :
    Tables.unescapedPipes row.text =
      Marks.marksFrom backslash pipe row.indent.length false
        (edge row.leading ++ (row.body ++ edge row.trailing ++ row.blanks)) := by
  have blank : ∀ unit ∈ row.indent, isBlank unit = true :=
    fun unit member => isBlank_of_isIndent (proper.indented unit member)
  rw [Tables.unescapedPipes, row.text_eq, Marks.marksFrom_append,
    (unmarked_blanks blank false).marksFrom, escapes_blanks blank, Nat.zero_add,
    List.nil_append]

/-- The pipes of a row: that before its cells, those between them and that behind. -/
theorem Proper.unescapedPipes :
    unescapedPipes row.text =
      edgePlace row.leading row.indent.length ++
        (seams row.start row.cells ++
          edgePlace row.trailing (row.start + row.body.length)) := by
  have inner (index : Nat) :
      Marks.marksFrom backslash pipe index false (row.body ++ edge row.trailing ++ row.blanks) =
        seams index row.cells ++ edgePlace row.trailing (index + row.body.length) := by
    rw [List.append_assoc, Marks.marksFrom_append, Row.body,
      Marks.marksFrom_joined pipe_ne_backslash proper.cut]
    congr 1
    cases trailing : row.trailing with
    | true =>
        rw [edge_true, show escapes backslash false (joined pipe row.cells) = false from
          proper.closed trailing, List.singleton_append,
          Marks.marksFrom_mark _ _ pipe_ne_backslash,
          (unmarked_blanks proper.blank _).marksFrom]
        rfl
    | false => exact (unmarked_blanks proper.blank _).marksFrom _
  rw [proper.unescapedPipes_behind]
  cases leading : row.leading with
  | true =>
      rw [edge_true, List.singleton_append, Marks.marksFrom_mark _ _ pipe_ne_backslash,
        inner, Row.start, leading]
      rfl
  | false =>
      rw [edge_false, List.nil_append, inner, Row.start, leading]
      rfl

/-- Where the line ends but for its blanks. -/
theorem Proper.trimmedEnd :
    trimmedEnd row.text row.indent.length =
      row.start + row.body.length + (edge row.trailing).length := by
  have above : row.indent.length ≤
      (row.indent ++ edge row.leading ++ row.body ++ edge row.trailing).length := by simp
  have last : row.indent.length <
        (row.indent ++ edge row.leading ++ row.body ++ edge row.trailing).length →
      ∀ unit ∈ (row.indent ++ edge row.leading ++ row.body ++ edge row.trailing).getLast?,
        isBlank unit = false := by
    intro after unit found
    cases trailing : row.trailing with
    | true =>
        rw [trailing, edge_true, List.getLast?_concat] at found
        obtain rfl := Option.some.inj found
        exact not_isBlank_pipe
    | false =>
        rw [trailing, edge_false, List.append_nil] at found after
        rcases List.eq_nil_or_concat row.body with none | ⟨front, final, some⟩
        · rw [none, List.append_nil] at found after
          cases leading : row.leading with
          | true =>
              rw [leading, edge_true, List.getLast?_concat] at found
              obtain rfl := Option.some.inj found
              exact not_isBlank_pipe
          | false => simp [leading] at after
        · apply proper.ends trailing unit
          rw [some, List.concat_eq_append] at found ⊢
          rw [← List.append_assoc, List.getLast?_concat] at found
          rwa [List.getLast?_concat]
  rw [Row.text, trimmedEnd_append proper.blank above last]
  simp only [List.length_append, Row.start]

theorem Proper.leadingPipe :
    decide ((Tables.unescapedPipes row.text).head? = some row.indent.length) =
      row.leading := by
  cases leading : row.leading with
  | true =>
      rw [proper.unescapedPipes, leading, edgePlace_true]
      exact decide_eq_true rfl
  | false =>
      apply decide_eq_false
      intro first
      rw [proper.unescapedPipes_behind, leading, edge_false, List.nil_append] at first
      cases rest : row.body ++ edge row.trailing ++ row.blanks with
      | nil =>
          rw [rest] at first
          cases first
      | cons unit rest' =>
          have other := (proper.opens leading unit (by rw [rest]; rfl)).2
          rw [rest, Marks.marksFrom_of_ne other] at first
          have behind := Marks.le_of_mem_marksFrom (List.mem_of_head? first)
          omega

/-- It has a trailing pipe where its last pipe, not the leading one, stands at its end. -/
theorem Proper.trailingPipe :
    (decide ((Tables.unescapedPipes row.text).length > if row.leading then 1 else 0) &&
      decide ((Tables.unescapedPipes row.text).getLast?.map (· + 1) =
        some (Tables.trimmedEnd row.text row.indent.length))) = row.trailing := by
  rw [proper.trimmedEnd, proper.unescapedPipes]
  cases trailing : row.trailing with
  | true =>
      rw [edgePlace_true, ← List.append_assoc, List.getLast?_concat, List.length_append,
        List.length_append, length_edgePlace, edge_true, List.length_singleton,
        List.length_singleton, Option.map_some, decide_eq_true rfl, Bool.and_true]
      exact decide_eq_true (by omega)
  | false =>
      rw [edgePlace_false, List.append_nil, edge_false, List.length_append, length_edgePlace]
      apply Bool.eq_false_iff.mpr
      intro both
      obtain ⟨more, final⟩ := Bool.and_eq_true_iff.mp both
      have more := of_decide_eq_true more
      have final := of_decide_eq_true final
      -- the last pipe between cells stands at the end only before an empty cell
      obtain ⟨front, cell, same⟩ := (List.eq_nil_or_concat row.cells).resolve_left proper.nonempty
      rw [List.concat_eq_append] at same
      rcases eq_or_ne front [] with rfl | some
      · rw [same] at more
        simp [seams] at more
      · rw [same, Marks.seams_concat pipe some, ← List.append_assoc, List.getLast?_concat,
          Row.body, same, Marks.joined_append pipe some (List.cons_ne_nil _ _)] at final
        have atEnd := Option.some.inj final
        rw [List.length_append, List.length_cons, Marks.joined_singleton] at atEnd
        simp only [List.length_nil] at atEnd
        have none : cell = [] := List.length_eq_zero_iff.mp (by omega)
        apply proper.last trailing
        · rw [same, List.length_append, List.length_singleton]
          have := List.length_pos_iff.mpr some
          omega
        · rw [same, List.getLast?_concat, none]

end

theorem slice_middle (before middle behind : Units) :
    slice (before ++ middle ++ behind) before.length (before.length + middle.length) =
      middle := by
  rw [slice, ← List.length_append, List.take_left, List.drop_left]

/-- The cells are cut out at their places. -/
theorem cellsFrom_laid (before behind : Units) {cells : List Units} (some : cells ≠ []) :
    cellsFrom (before ++ joined pipe cells ++ behind)
        (before.length + (joined pipe cells).length) before.length
        (seams before.length cells) =
      laid before.length cells := by
  induction cells generalizing before with
  | nil => exact absurd rfl some
  | cons cell cells induction =>
      cases cells with
      | nil =>
          rw [Marks.joined_singleton, seams, cellsFrom, slice_middle, laid, laid,
            Nat.max_eq_right (Nat.le_add_right _ _)]
      | cons next cells =>
          have parted : before ++ joined pipe (cell :: next :: cells) ++ behind =
              before ++ cell ++ (pipe :: joined pipe (next :: cells) ++ behind) := by
            simp [Marks.joined_cons_cons]
          have later : before ++ joined pipe (cell :: next :: cells) ++ behind =
              (before ++ cell ++ [pipe]) ++ joined pipe (next :: cells) ++ behind := by
            simp [Marks.joined_cons_cons]
          have place : (before ++ cell ++ [pipe]).length = before.length + cell.length + 1 := by
            simp only [List.length_append, List.length_singleton]
          have stop : before.length + (joined pipe (cell :: next :: cells)).length =
              (before ++ cell ++ [pipe]).length + (joined pipe (next :: cells)).length := by
            rw [place, Marks.joined_cons_cons, List.length_append, List.length_cons]
            omega
          have rest := induction (before ++ cell ++ [pipe]) (List.cons_ne_nil _ _)
          rw [seams, cellsFrom, laid, stop]
          congr 1
          · rw [parted, slice_middle]
          · rw [later, ← place, rest]

section

variable (proper : row.Proper)
include proper

theorem Proper.innerPipes :
    ((Tables.unescapedPipes row.text).take
        (if row.trailing then (Tables.unescapedPipes row.text).length - 1
          else (Tables.unescapedPipes row.text).length)).drop (if row.leading then 1 else 0) =
      seams row.start row.cells := by
  have front : (Tables.unescapedPipes row.text).take
      (if row.trailing then (Tables.unescapedPipes row.text).length - 1
        else (Tables.unescapedPipes row.text).length) =
        edgePlace row.leading row.indent.length ++ seams row.start row.cells := by
    rw [proper.unescapedPipes, ← List.append_assoc]
    cases row.trailing with
    | true =>
        rw [edgePlace_true, if_pos rfl, List.length_append, List.length_singleton,
          Nat.add_sub_cancel, List.take_left]
    | false =>
        rw [edgePlace_false, List.append_nil, if_neg Bool.false_ne_true, List.take_length]
  rw [front]
  cases row.leading with
  | true => rfl
  | false => rfl

theorem Proper.firstPlace :
    (if row.leading then (Tables.unescapedPipes row.text).headD 0 + 1 else row.indent.length) =
      row.start := by
  cases leading : row.leading with
  | true =>
      rw [proper.unescapedPipes, leading, Row.start, leading]
      rfl
  | false =>
      rw [Row.start, leading]
      rfl

theorem Proper.lastPlace :
    (if row.trailing then (Tables.unescapedPipes row.text).getLastD
        (Tables.trimmedEnd row.text row.indent.length)
      else Tables.trimmedEnd row.text row.indent.length) =
      row.start + row.body.length := by
  cases trailing : row.trailing with
  | true =>
      rw [proper.unescapedPipes, trailing, edgePlace_true, if_pos rfl, ← List.append_assoc,
        List.getLastD_concat]
  | false =>
      rw [proper.trimmedEnd, trailing]
      rfl

theorem Proper.parseLine (start : Nat) :
    parseLine row.text start =
      { start, text := row.text, indent := row.indent, leadingPipe := row.leading,
        trailingPipe := row.trailing, cells := laid row.start row.cells } := by
  have cells := cellsFrom_laid (row.indent ++ edge row.leading)
    (edge row.trailing ++ row.blanks) proper.nonempty
  rw [List.length_append] at cells
  simp only [Tables.parseLine, proper.leadingWhitespace, proper.leadingPipe,
    proper.trailingPipe, proper.innerPipes, proper.firstPlace, proper.lastPlace]
  congr 1
  rw [Row.text, List.append_assoc _ (edge row.trailing)]
  exact cells

end

end Row

/-- The pieces but a first empty one, with the pipe that stood behind it. -/
theorem exists_leading {piece : Units} {pieces : List Units}
    (cut : Cut backslash pipe false (piece :: pieces)) :
    ∃ (cells : List Units) (leading : Bool), cells ≠ [] ∧
      edge leading ++ joined pipe cells = joined pipe (piece :: pieces) ∧
      Cut backslash pipe false cells ∧
      (leading = false → ∀ unit ∈ (joined pipe cells).head?, unit ≠ pipe) := by
  by_cases leading : piece = [] ∧ pieces ≠ []
  · obtain ⟨rfl, present⟩ := leading
    obtain ⟨next, pieces, rfl⟩ := List.exists_cons_of_ne_nil present
    exact ⟨next :: pieces, true, present, by rw [Marks.joined_cons_cons]; rfl, cut.2.2,
      fun absurd => by cases absurd⟩
  · refine ⟨piece :: pieces, false, List.cons_ne_nil _ _, rfl, cut, fun _ => ?_⟩
    cases piece with
    | nil =>
        obtain rfl : pieces = [] := by
          by_contra present
          exact leading ⟨rfl, present⟩
        rintro unit ⟨⟩
    | cons first piece =>
        have apart : first ≠ pipe :=
          fun same => (Marks.unmarked_cons.mp cut.head).1 ⟨same, rfl⟩
        cases pieces with
        | nil =>
            rintro unit ⟨⟩
            exact apart
        | cons next pieces =>
            rw [Marks.joined_cons_cons]
            rintro unit ⟨⟩
            exact apart

/-- The cells but a last empty one, with the pipe that stood before it. -/
theorem exists_trailing (present : cells ≠ []) (cut : Cut backslash pipe false cells) :
    ∃ (front : List Units) (trailing : Bool), front ≠ [] ∧
      joined pipe front ++ edge trailing = joined pipe cells ∧
      Cut backslash pipe false front ∧
      (trailing = true → escapes backslash false (joined pipe front) = false) ∧
      (trailing = false → 2 ≤ front.length → front.getLast? ≠ some []) := by
  obtain ⟨front, last, same⟩ := (List.eq_nil_or_concat cells).resolve_left present
  rw [List.concat_eq_append] at same
  subst same
  by_cases trailing : front ≠ [] ∧ last = []
  · obtain ⟨remains, rfl⟩ := trailing
    have parts := Marks.cut_iff.mp cut
    rw [List.dropLast_concat] at parts
    refine ⟨front, true, remains, ?_, ?_, fun _ => ?_, fun absurd => by cases absurd⟩
    · rw [Marks.joined_append pipe remains (List.cons_ne_nil _ _), Marks.joined_singleton]
      rfl
    · refine Marks.cut_iff.mpr ⟨fun piece member => parts.1 piece (by simp [member]), ?_⟩
      exact fun piece member => parts.2 piece ((List.dropLast_sublist _).subset member)
    · obtain ⟨before, final, same⟩ := (List.eq_nil_or_concat front).resolve_left remains
      rw [List.concat_eq_append] at same
      rw [same, Marks.escapes_joined pipe_ne_backslash]
      exact parts.2 final (by simp [same])
  · refine ⟨front ++ [last], false, present, List.append_nil _, cut, ?_, ?_⟩
    · exact fun absurd => by cases absurd
    intro _ many empty
    rw [List.getLast?_concat] at empty
    refine trailing ⟨?_, Option.some.inj empty⟩
    intro none
    rw [none] at many
    simp at many

/-- Every line is a row. -/
theorem exists_row (text : Units) : ∃ row : Row, row.Proper ∧ row.text = text := by
  obtain ⟨piece, pieces, joins, cut⟩ := Marks.exists_cut pipe_ne_backslash false
    ((text.dropWhile isIndent).rdropWhile isBlank)
  have rest : joined pipe (piece :: pieces) ++ (text.dropWhile isIndent).rtakeWhile isBlank =
      text.dropWhile isIndent := by
    rw [joins, List.rdropWhile_append_rtakeWhile]
  have blank : ∀ unit ∈ (text.dropWhile isIndent).rtakeWhile isBlank, isBlank unit = true :=
    fun unit member => List.mem_rtakeWhile_imp member
  have solid : ∀ unit ∈ (joined pipe (piece :: pieces)).getLast?, isBlank unit = false := by
    intro unit found
    rw [joins] at found
    exact Ends.not_of_getLast?_rdropWhile found
  obtain ⟨cells, leading, present, joinsCells, cutCells, opens⟩ :=
    exists_leading cut
  obtain ⟨front, trailing, remains, joinsFront, cutFront, closed, last⟩ :=
    exists_trailing present cutCells
  have body : edge leading ++ (joined pipe front ++ edge trailing) =
      joined pipe (piece :: pieces) := by
    rw [joinsFront, joinsCells]
  have first : leading = false →
      ∀ unit ∈ (joined pipe front ++ edge trailing ++
        (text.dropWhile isIndent).rtakeWhile isBlank).head?,
        isIndent unit = false ∧ unit ≠ pipe := by
    rintro rfl unit found
    constructor
    · rw [show joined pipe front ++ edge trailing = joined pipe (piece :: pieces) from body,
        rest] at found
      have stops := List.head?_dropWhile_not isIndent text
      rw [found] at stops
      exact stops
    · rw [joinsFront] at found
      cases within : joined pipe cells with
      | nil =>
          rw [within, List.nil_append] at found
          rintro rfl
          have isBlank := blank pipe (List.mem_of_head? found)
          rw [not_isBlank_pipe] at isBlank
          cases isBlank
      | cons start more =>
          rw [within] at found
          exact opens rfl unit (by rw [within]; exact found)
  have final : trailing = false →
      ∀ unit ∈ (joined pipe front).getLast?, isBlank unit = false := by
    rintro rfl unit found
    apply solid unit
    obtain ⟨more, same⟩ := List.getLast?_eq_some_iff.mp found
    rw [← body, edge_false, List.append_nil, same, ← List.append_assoc]
    exact List.getLast?_concat
  refine ⟨⟨text.takeWhile isIndent, leading, front, trailing,
    (text.dropWhile isIndent).rtakeWhile isBlank⟩, ⟨remains, ?_, blank, cutFront, closed, first,
      final, last⟩, ?_⟩
  · exact fun unit member => List.mem_takeWhile_imp member
  · rw [Row.text_eq, Row.body, ← List.append_assoc (edge leading), body, rest,
      List.takeWhile_append_dropWhile]

end Crystalline.Tables
