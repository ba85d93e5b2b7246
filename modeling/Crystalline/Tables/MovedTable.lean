import Crystalline.Tables.Moved

/-!
# A column moved and moved back

Each line of a table is moved by itself.  A line is read with its cells moved just where
its last cell leaves nothing escaped.  So the changes of a move permute the cells of each
line that has both columns, and the changes of the move back give the table before, just
where no line is left with a cell at its end that escapes the pipe it is to stand before.
-/

namespace Crystalline.Tables

open Marks (joined Cut Unmarked escapes)
open Moving (moved)

theorem cellText_eq (line : TableLine) (column : Nat) :
    cellText line column = (texts line)[column]?.getD [] := by
  rw [cellText, texts, List.getElem?_map]
  cases line.cells[column]? <;> rfl

theorem length_texts (line : TableLine) : (texts line).length = line.cells.length :=
  List.length_map _

variable {row : Row} {line other : TableLine}

theorem Row.Proper.texts (proper : row.Proper) (start : Nat) :
    Tables.texts (Tables.parseLine row.text start) = row.cells.map trim := by
  rw [proper.parseLine]
  exact texts_laid rfl

/-- The line with its change in it. -/
def movedText (column target : Nat) (text : Units) : Units :=
  Splices.Work.edited (text, moveLine column target (parseLine text 0))

variable {column target : Nat} {text : Units}

theorem movedText_short (short : (parseLine text 0).cells.length ≤ max column target) :
    movedText column target text = text := by
  rw [movedText, moveLine]
  simp only [if_pos short]
  rfl

theorem exists_parts (wide : max column target < (parseLine text 0).cells.length) :
    ∃ (row : Row) (front middle back : List Units) (place goal : Nat), row.Proper ∧
      row.text = text ∧ Between row column target front middle back place goal ∧
      movedText column target text = (row.moved column target).text := by
  obtain ⟨row, proper, rfl⟩ := exists_row text
  have within : max column target < row.cells.length := by
    rw [proper.parseLine] at wide
    change max column target < (laid row.start row.cells).length at wide
    rwa [length_laid] at wide
  obtain ⟨front, middle, back, place, goal, parts⟩ := exists_between within
  exact ⟨row, front, middle, back, place, goal, proper, rfl, parts, parts.edited proper⟩

/-- Where the line ends at the higher column without a pipe behind it, its last cell
leaves nothing escaped. -/
def Ending (column target : Nat) (line : TableLine) : Prop :=
  line.trailingPipe = false → line.cells.length = max column target + 1 →
    escapes backslash false (cellText line (max column target)) = false

/-- Neither the last cell nor the one that comes to the end leaves anything escaped. -/
def Clean (column target : Nat) (line : TableLine) : Prop :=
  line.trailingPipe = false → line.cells.length = max column target + 1 →
    escapes backslash false (cellText line (max column target)) = false ∧
      escapes backslash false
        (cellText line (Moving.source column target (max column target))) = false

theorem Between.back_eq_nil {front middle back : List Units} {place goal : Nat}
    (parts : Between row column target front middle back place goal) :
    back = [] ↔ row.cells.length = max column target + 1 := by
  rw [parts.high, parts.cells, List.length_append, List.length_append, ← List.length_eq_zero_iff]
  omega

theorem ending_iff (proper : row.Proper) (apart : column ≠ target) :
    Ending column target (parseLine row.text 0) ↔
      (row.trailing = false → row.cells.length = max column target + 1 →
        ∀ last ∈ row.cells.getLast?, escapes backslash false last = false) := by
  have trailing : (parseLine row.text 0).trailingPipe = row.trailing := by
    rw [proper.parseLine]
  have length : (parseLine row.text 0).cells.length = row.cells.length := by
    rw [← length_texts, proper.texts, List.length_map]
  rw [Ending, trailing, length]
  refine forall_congr' fun bare => forall_congr' fun whole => ?_
  obtain ⟨front, last, same⟩ := (List.eq_nil_or_concat row.cells).resolve_left proper.nonempty
  rw [List.concat_eq_append] at same
  have final : row.cells.getLast? = some last := by rw [same, List.getLast?_concat]
  have several : 2 ≤ row.cells.length := by omega
  have atEnd : max column target = front.length := by
    rw [same, List.length_append, List.length_singleton] at whole
    omega
  have trims := escapes_trim (proper.last_solid bare several final).2
  rw [cellText_eq, proper.texts, same, List.map_append, List.map_singleton, atEnd,
    ← List.length_map trim, List.getElem?_concat_length, Option.getD_some, trims, ← same, final]
  simp

section

variable (apart : column ≠ target) (wide : max column target < (parseLine text 0).cells.length)
include apart wide

/-- A line that has both columns is read with its cells moved. -/
theorem texts_movedText (ending : Ending column target (parseLine text 0)) (start : Nat) :
    texts (parseLine (movedText column target text) start) =
        moved column target (texts (parseLine text 0)) ∧
      (parseLine (movedText column target text) start).trailingPipe =
        ((parseLine text 0).trailingPipe ||
          (decide (max column target + 1 = (parseLine text 0).cells.length) &&
            ((moved column target (texts (parseLine text 0))).getLastD []).isEmpty)) := by
  obtain ⟨row, front, middle, back, place, goal, proper, rfl, parts, edited⟩ := exists_parts wide
  rw [← length_texts, proper.texts, List.length_map] at wide
  have readable := parts.readable_moved proper apart fun bare none =>
    (ending_iff proper apart).mp ending bare (parts.back_eq_nil.mp none)
  obtain ⟨read, trailing⟩ := readable.parseLine start
  have cells : (row.moved column target).cells.map trim =
      moved column target (row.cells.map trim) :=
    Moving.map_moved trim column target (by omega) (by omega)
  have last : trim ((moved column target row.cells).getLastD []) =
      (moved column target (row.cells.map trim)).getLastD [] := by
    rw [← cells]
    change trim ((row.moved column target).cells.getLastD []) = _
    rw [List.getLastD_eq_getLast?, List.getLastD_eq_getLast?, List.getLast?_map]
    cases (row.moved column target).cells.getLast? <;> rfl
  rw [edited, read, trailing, cells, proper.texts, ← length_texts, proper.texts, List.length_map,
    proper.parseLine]
  refine ⟨rfl, ?_⟩
  rw [← last]
  rfl

/-- A line is read with as many cells after the move just where its last cell leaves
nothing escaped. -/
theorem length_movedText (start : Nat) :
    (texts (parseLine (movedText column target text) start)).length =
        (texts (parseLine text 0)).length ↔
      Ending column target (parseLine text 0) := by
  constructor
  · intro same
    obtain ⟨row, front, middle, back, place, goal, proper, rfl, parts, edited⟩ :=
      exists_parts wide
    refine (ending_iff proper apart).mpr fun bare whole last final => ?_
    by_contra escaping
    have fewer := parts.length_moved_escaped proper apart (parts.back_eq_nil.mpr whole) final
      (by simpa using escaping) start
    rw [edited, proper.texts, List.length_map] at same
    omega
  · intro ending
    rw [(texts_movedText apart wide ending start).1]
    rw [← length_texts] at wide
    exact Moving.length_moved (by omega) (by omega)

end

/-- A line is clean where its last cell leaves nothing escaped, before the move and
after it. -/
theorem clean_iff (apart : column ≠ target) (start : Nat) :
    Clean column target (parseLine text 0) ↔
      Ending column target (parseLine text 0) ∧
        Ending target column (parseLine (movedText column target text) start) := by
  rcases Nat.lt_or_ge (max column target) (parseLine text 0).cells.length with wide | short
  · have inside := wide
    rw [← length_texts] at inside
    have closing : Ending column target (parseLine text 0) →
        cellText (parseLine (movedText column target text) start) (max target column) =
          cellText (parseLine text 0) (Moving.source column target (max column target)) := by
      intro ending
      rw [cellText_eq, cellText_eq, (texts_movedText apart wide ending start).1,
        Moving.getElem?_moved (by omega) (by omega), Nat.max_comm target]
    have length : Ending column target (parseLine text 0) →
        (parseLine (movedText column target text) start).cells.length =
          (parseLine text 0).cells.length := by
      intro ending
      rw [← length_texts, ← length_texts]
      exact (length_movedText apart wide start).mpr ending
    constructor
    · intro clean
      have ending : Ending column target (parseLine text 0) := fun bare whole =>
        (clean bare whole).1
      refine ⟨ending, fun bare whole => ?_⟩
      rw [(texts_movedText apart wide ending start).2, Bool.or_eq_false_iff] at bare
      rw [length ending, Nat.max_comm] at whole
      rw [closing ending]
      exact (clean bare.1 whole).2
    · rintro ⟨ending, back⟩ bare whole
      refine ⟨ending bare whole, ?_⟩
      rw [← closing ending]
      cases trailing : (parseLine (movedText column target text) start).trailingPipe with
      | false => exact back trailing (by rw [length ending, whole, Nat.max_comm])
      | true =>
          rw [(texts_movedText apart wide ending start).2, bare, whole, decide_eq_true rfl,
            Bool.false_or, Bool.true_and, List.isEmpty_iff] at trailing
          have last : (moved column target (texts (parseLine text 0)))[max target column]?.getD
              [] = [] := by
            rw [List.getLastD_eq_getLast?, List.getLast?_eq_getElem?,
              Moving.length_moved (by omega) (by omega), length_texts, whole, Nat.max_comm]
              at trailing
            exact trailing
          rw [cellText_eq, (texts_movedText apart wide ending start).1, last]
          rfl
  · have same := movedText_short short
    rw [same]
    refine ⟨fun _ => ⟨fun _ whole => ?_, fun _ whole => ?_⟩, fun _ _ whole => ?_⟩
    · omega
    · change (parseLine text 0).cells.length = _ at whole
      omega
    · omega

theorem moveLine_short {text : Units} {start : Nat}
    (short : (parseLine text 0).cells.length ≤ max column target) :
    moveLine column target (parseLine text start) = none :=
  if_pos short

theorem moveLine_start (column target : Nat) (text : Units) (start : Nat) :
    moveLine column target (parseLine text start) =
      (moveLine column target (parseLine text 0)).map (Splices.Splice.shift start) := by
  rcases Nat.lt_or_ge (max column target) (parseLine text 0).cells.length with wide | short
  · obtain ⟨row, front, middle, back, place, goal, proper, rfl, parts, -⟩ := exists_parts wide
    rw [parts.moveLine proper, parts.moveLine proper]
    split
    · rfl
    · rw [Option.map_some, Splices.Splice.shift, Nat.zero_add, Nat.zero_add]
  · rw [moveLine_short short, moveLine_short short]
    rfl

theorem moveLine_within {text : Units} {splice : SpanChange}
    (found : moveLine column target (parseLine text 0) = some splice) : splice.Within text := by
  rcases Nat.lt_or_ge (max column target) (parseLine text 0).cells.length with wide | short
  · obtain ⟨row, front, middle, back, place, goal, proper, rfl, parts, -⟩ := exists_parts wide
    rw [parts.moveLine proper] at found
    split at found
    · cases found
    · cases found
      have whole := congrArg List.length parts.text
      rw [List.length_append, List.length_append] at whole
      constructor <;> simp only <;> omega
  · rw [moveLine_short short] at found
    cases found

theorem applied_moves (texts others : List Units) :
    Splices.applied ((linesFrom 0 texts).filterMap (moveLine column target))
        (joined lineFeed (texts ++ others)) =
      joined lineFeed (texts.map (movedText column target) ++ others) := by
  have applied := @applied_changes (fun item => moveLine column target item.1)
    (fun text _ => moveLine column target (parseLine text 0))
    (fun text place _ => moveLine_start column target text place)
    (fun _ _ _ found => moveLine_within found) texts others
  have changes : (linesFrom 0 texts).zipIdx.filterMap (fun item =>
      moveLine column target item.1) =
        (linesFrom 0 texts).filterMap (moveLine column target) := by
    conv_rhs => rw [← List.zipIdx_map_fst 0 (linesFrom 0 texts), List.filterMap_map]
    rfl
  have edited : (texts.zipIdx.map fun item =>
      Splices.Work.edited (item.1, moveLine column target (parseLine item.1 0))) =
        texts.map (movedText column target) := by
    conv_rhs => rw [← List.zipIdx_map_fst 0 texts, List.map_map]
    rfl
  rw [← changes, ← edited]
  exact applied

theorem mem_movedText {text : Units} {unit : UInt16}
    (member : unit ∈ movedText column target text) : unit ∈ text ∨ unit = pipe := by
  rcases Nat.lt_or_ge (max column target) (parseLine text 0).cells.length with wide | short
  · obtain ⟨row, front, middle, back, place, goal, -, rfl, parts, edited⟩ := exists_parts wide
    have inEdge {present : Bool} (inside : unit ∈ edge present) : unit = pipe := by
      cases present with
      | true => exact List.mem_singleton.mp inside
      | false => cases inside
    rw [edited, parts.text_moved, Between.laidOut] at member
    rw [parts.text]
    simp only [List.mem_append] at member ⊢
    rcases member with (before | (opening | cells) | closing) | after
    · exact .inl (.inl (.inl before))
    · exact .inr (inEdge opening)
    · rcases Marks.mem_joined cells with isPipe | ⟨cell, among, inside⟩
      · exact .inr isPipe
      · exact .inl (.inl (.inr
          (Marks.mem_joined_of_mem pipe (parts.mem_moved among) inside)))
    · exact .inr (inEdge closing)
    · exact .inl (.inr after)
  · rw [movedText_short short] at member
    exact .inl member

theorem solid_movedText (apart : column ≠ target) {text : Units}
    (solid : (trim text).isEmpty = false) :
    (trim (movedText column target text)).isEmpty = false := by
  rcases Nat.lt_or_ge (max column target) (parseLine text 0).cells.length with wide | short
  · obtain ⟨row, front, middle, back, place, goal, -, rfl, parts, edited⟩ := exists_parts wide
    have several := parts.several apart
    obtain ⟨first, next, rest, same⟩ : ∃ first next rest,
        Moving.moved place goal middle = first :: next :: rest := by
      have length := Moving.length_moved parts.inPlace parts.inGoal
      match Moving.moved place goal middle, length with
      | first :: next :: rest, _ => exact ⟨first, next, rest, rfl⟩
      | [_], length => simp at length; omega
      | [], length => simp at length; omega
    refine @isEmpty_trim_of_mem _ pipe ?_ not_isBlank_pipe
    rw [edited, parts.text_moved, Between.laidOut, same, Marks.joined_cons_cons]
    simp
  · rwa [movedText_short short]

theorem Laid.movedText {texts others : List Units} (laid : Laid texts others)
    (apart : column ≠ target) : Laid (texts.map (movedText column target)) others := by
  constructor
  · intro text member
    rcases List.mem_append.mp member with inside | other
    · obtain ⟨before, among, rfl⟩ := List.mem_map.mp inside
      intro fed
      rcases mem_movedText fed with present | isPipe
      · exact laid.unbroken before (List.mem_append_left _ among) present
      · exact absurd isPipe (by decide)
    · exact laid.unbroken text (List.mem_append_right _ other)
  · rw [List.length_map]
    exact laid.two
  · exact laid.blank
  · intro many text found
    rw [List.length_map] at many
    rw [List.getLast?_map] at found
    obtain ⟨before, last, rfl⟩ := Option.map_eq_some_iff.mp found
    exact solid_movedText apart (laid.ends many before last)

/-- The table with its column moved: each line that has both columns holds the same texts
with the moved one at its new place, and every shorter line is unchanged. -/
structure Moves (column target : Nat) (model after : TableModel) : Prop where
  columns : after.columns = model.columns
  length : after.lines.length = model.lines.length
  wide : ∀ (index : Nat) (line other : TableLine), model.lines[index]? = some line →
    after.lines[index]? = some other → max column target < line.cells.length →
      texts other = moved column target (texts line)
  short : ∀ (index : Nat) (line other : TableLine), model.lines[index]? = some line →
    after.lines[index]? = some other → line.cells.length ≤ max column target →
      other.text = line.text ∧ other.cells = line.cells
  /-- The alignments move with the cells of the rule. -/
  aligns : ∀ rule ∈ model.lines[1]?, after.aligns =
    if max column target < rule.cells.length then moved column target model.aligns
    else model.aligns

/-- The table holds what it held before. -/
structure Restores (model back : TableModel) : Prop where
  columns : back.columns = model.columns
  aligns : back.aligns = model.aligns
  grid : grid back = grid model

theorem alignOf_congr {index place : Nat} (same : cellText line index = cellText other place) :
    alignOf line.cells[index]? = alignOf other.cells[place]? := by
  unfold cellText at same
  unfold alignOf
  rw [same]

theorem mem_texts_movedText (apart : column ≠ target) {text : Units}
    (ending : Ending column target (parseLine text 0)) {start : Nat} {cell : Units}
    (member : cell ∈ texts (parseLine (movedText column target text) start)) :
    cell ∈ texts (parseLine text 0) := by
  rcases Nat.lt_or_ge (max column target) (parseLine text 0).cells.length with wide | short
  · rw [(texts_movedText apart wide ending start).1] at member
    rw [← length_texts] at wide
    exact Moving.mem_of_mem_moved (by omega) (by omega) member
  · rw [movedText_short short] at member
    exact member

/-- The alignments of the moved rule. -/
theorem aligns_moved (apart : column ≠ target) {columns : Nat}
    (inside : max column target < columns) {rule : Units}
    (ending : Ending column target (parseLine rule 0)) (place : Nat) :
    ((List.range columns).map fun index =>
        alignOf (parseLine (movedText column target rule) place).cells[index]?) =
      if max column target < (parseLine rule 0).cells.length then
        moved column target
          ((List.range columns).map fun index => alignOf (parseLine rule 0).cells[index]?)
      else (List.range columns).map fun index => alignOf (parseLine rule 0).cells[index]? := by
  split
  · rename_i wide
    have read := (texts_movedText apart wide ending place).1
    have long := wide
    rw [← length_texts] at long
    apply List.ext_getElem?
    intro index
    rw [Moving.getElem?_moved (by rw [List.length_map, List.length_range]; omega)
      (by rw [List.length_map, List.length_range]; omega), List.getElem?_map, List.getElem?_map]
    have standing : cellText (parseLine (movedText column target rule) place) index =
        cellText (parseLine rule 0) (Moving.source column target index) := by
      rw [cellText_eq, cellText_eq, read, Moving.getElem?_moved (by omega) (by omega)]
    rcases Nat.lt_or_ge index columns with within | beyond
    · rw [List.getElem?_range within, List.getElem?_range
        (Moving.source_lt (by omega) (by omega) within), Option.map_some, Option.map_some,
        alignOf_congr standing]
    · have same : Moving.source column target index = index := by
        unfold Moving.source
        split_ifs <;> omega
      rw [same, List.getElem?_eq_none (by rwa [List.length_range]), Option.map_none,
        Option.map_none]
  · rename_i short
    have cells : (parseLine rule place).cells = (parseLine rule 0).cells := rfl
    rw [movedText_short (by omega), cells]

theorem exists_movedLine {texts : List Units} {index : Nat}
    (found : (linesFrom 0 texts)[index]? = some line)
    (later : (linesFrom 0 (texts.map (movedText column target)))[index]? = some other) :
    ∃ text ∈ texts, ∃ start place, line = parseLine text start ∧
      other = parseLine (movedText column target text) place := by
  obtain ⟨start, before⟩ := linesFrom_getElem? 0 index texts
  obtain ⟨place, after⟩ := linesFrom_getElem? 0 index (texts.map (movedText column target))
  rw [found] at before
  obtain ⟨text, standing, rfl⟩ := Option.map_eq_some_iff.mp before.symm
  rw [later, List.getElem?_map, standing] at after
  exact ⟨text, List.mem_of_getElem? standing, start, place, rfl, Option.some.inj after⟩

theorem moves_of_ending {texts others : List Units} (laid : Laid texts others)
    {model : TableModel} (modeled : modelOf (linesFrom 0 texts) = some model)
    (inside : max column target < model.columns) (apart : column ≠ target)
    (ending : ∀ text ∈ texts, Ending column target (parseLine text 0)) :
    ∃ after, modelOf (linesFrom 0 (texts.map (movedText column target))) = some after ∧
      Moves column target model after := by
  obtain ⟨header, delimiter, rows, rfl⟩ : ∃ header delimiter rows,
      texts = header :: delimiter :: rows := by
    have two := laid.two
    match texts with
    | header :: delimiter :: rows => exact ⟨header, delimiter, rows, rfl⟩
  obtain ⟨first, second, later, same, lines, columns, aligns, rule⟩ := exists_of_modelOf modeled
  rw [linesFrom, linesFrom] at same
  obtain ⟨head, same⟩ := List.cons.inj same
  obtain ⟨ruler, -⟩ := List.cons.inj same
  rw [← head] at columns aligns
  rw [← ruler] at aligns rule
  have headed := ending header List.mem_cons_self
  have ruled := ending delimiter (List.mem_cons_of_mem _ List.mem_cons_self)
  have rules : ∀ place, ∀ cell ∈ (parseLine (movedText column target delimiter) place).cells,
      delimiterCell cell.raw = true := by
    intro place cell member
    have among := mem_texts_movedText apart ruled
      (List.mem_map_of_mem member : trim cell.raw ∈ texts _)
    obtain ⟨other, standing, same⟩ := List.mem_map.mp among
    rw [delimiterCell_iff, ← same, ← delimiterCell_iff]
    exact rule other standing
  obtain ⟨place, read⟩ := modelOf_eq rfl rules
  have long : max column target < (parseLine header 0).cells.length := columns ▸ inside
  have count : (parseLine (movedText column target header) 0).cells.length =
      (parseLine header 0).cells.length := by
    rw [← length_texts, ← length_texts]
    exact (length_movedText apart long 0).mpr headed
  refine ⟨_, read, ?_, ?_, ?_, ?_, ?_⟩
  · rw [columns, count]
  · rw [lines, length_linesFrom, length_linesFrom, ← List.map_cons, ← List.map_cons,
      List.length_map]
  · intro index line other found later wide
    rw [lines] at found
    obtain ⟨text, among, start, place, rfl, rfl⟩ := exists_movedLine found later
    exact (texts_movedText apart wide (ending text among) place).1
  · intro index line other found later short
    rw [lines] at found
    obtain ⟨text, among, start, place, rfl, rfl⟩ := exists_movedLine found later
    rw [movedText_short short]
    exact ⟨rfl, rfl⟩
  · intro other found
    rw [lines] at found
    cases found
    rw [columns] at inside
    rw [aligns, count]
    exact aligns_moved apart inside ruled place

theorem Moves.restores {model after back : TableModel} (there : Moves column target model after)
    (here : Moves target column after back) (inside : max column target < model.columns)
    (aligned : model.aligns.length = model.columns) (ruled : ∃ rule, model.lines[1]? = some rule) :
    Restores model back := by
  have length := here.length.trans there.length
  -- the lines of one number, before the move, after it and after the move back
  have each {index : Nat} {line : TableLine} (found : model.lines[index]? = some line) :
      ∃ middle last, after.lines[index]? = some middle ∧ back.lines[index]? = some last ∧
        middle.cells.length = line.cells.length ∧ texts last = texts line := by
    have within := (List.getElem?_eq_some_iff.mp found).1
    obtain ⟨middle, standing⟩ : ∃ middle, after.lines[index]? = some middle :=
      ⟨_, List.getElem?_eq_getElem (there.length.symm ▸ within)⟩
    obtain ⟨last, stands⟩ : ∃ last, back.lines[index]? = some last :=
      ⟨_, List.getElem?_eq_getElem (length.symm ▸ within)⟩
    refine ⟨middle, last, standing, stands, ?_⟩
    rcases Nat.lt_or_ge (max column target) line.cells.length with wide | short
    · have moves := there.wide index line middle found standing wide
      have long := wide
      rw [← length_texts] at long
      have count : (texts middle).length = (texts line).length := by
        rw [moves, Moving.length_moved (by omega) (by omega)]
      have returns := here.wide index middle last standing stands (by
        rw [← length_texts, count, Nat.max_comm]
        exact long)
      refine ⟨by rw [← length_texts, count, length_texts], ?_⟩
      rw [returns, moves, Moving.moved_moved (by omega) (by omega)]
    · have stays := (there.short index line middle found standing short).2
      have still := (here.short index middle last standing stands (by
        rw [stays, Nat.max_comm]
        exact short)).2
      exact ⟨by rw [stays], by rw [texts, texts, still, stays]⟩
  refine ⟨here.columns.trans there.columns, ?_, ?_⟩
  · obtain ⟨rule, standing⟩ := ruled
    obtain ⟨middle, last, moved, -, count, -⟩ := each standing
    rw [here.aligns middle moved, there.aligns rule standing, count, Nat.max_comm target]
    split
    · exact Moving.moved_moved (by omega) (by omega)
    · rfl
  · rw [grid, grid]
    apply List.ext_getElem?
    intro index
    rw [List.getElem?_map, List.getElem?_map]
    cases found : model.lines[index]? with
    | none =>
        rw [List.getElem?_eq_none_iff] at found
        rw [List.getElem?_eq_none (length ▸ found)]
    | some line =>
        obtain ⟨middle, last, -, standing, -, same⟩ := each found
        rw [standing, Option.map_some, Option.map_some, same]

theorem moveColumn_eq {model : TableModel} (inside : max column target < model.columns)
    (apart : column ≠ target) :
    moveColumn model column target =
      some (model.lines.filterMap (moveLine column target)) := by
  rw [moveColumn, if_neg, if_neg apart]
  simp only [Bool.or_eq_true, decide_eq_true_eq]
  omega

/-- A line is read with as many cells after the move just where its last cell leaves
nothing escaped, also where it is too short to be moved. -/
theorem ending_of_length (apart : column ≠ target) {text : Units} {start : Nat}
    (same : max column target < (parseLine text 0).cells.length →
      (texts (parseLine (movedText column target text) start)).length =
        (texts (parseLine text 0)).length) :
    Ending column target (parseLine text 0) := by
  rcases Nat.lt_or_ge (max column target) (parseLine text 0).cells.length with wide | short
  · exact (length_movedText apart wide start).mp (same wide)
  · intro _ whole
    omega

/-- The lines of a table that a column is moved in, and moved back. -/
theorem ending_of_moves {texts : List Units} {model after back : TableModel}
    (lines : model.lines = linesFrom 0 texts)
    (moved : after.lines = linesFrom 0 (texts.map (movedText column target)))
    (returned : back.lines = linesFrom 0
      ((texts.map (movedText column target)).map (movedText target column)))
    (moves : Moves column target model after) (restores : Restores model back)
    (apart : column ≠ target) {text : Units} (member : text ∈ texts) :
    Ending column target (parseLine text 0) ∧
      Ending target column (parseLine (movedText column target text) 0) := by
  obtain ⟨index, standing⟩ := List.mem_iff_getElem?.mp member
  have found (others : List Units) := linesFrom_getElem? 0 index others
  obtain ⟨start, before⟩ := found texts
  obtain ⟨place, middle⟩ := found (texts.map (movedText column target))
  obtain ⟨goal, behind⟩ := found ((texts.map (movedText column target)).map
    (movedText target column))
  rw [standing, Option.map_some, ← lines] at before
  rw [List.getElem?_map, standing, Option.map_some, Option.map_some, ← moved] at middle
  rw [List.getElem?_map, List.getElem?_map, standing, Option.map_some, Option.map_some,
    Option.map_some, ← returned] at behind
  have ending : Ending column target (parseLine text 0) :=
    @ending_of_length column target apart text place fun wide => by
      rw [moves.wide index _ _ before middle wide]
      rw [← length_texts] at wide
      exact @Moving.length_moved _ column target (Tables.texts (parseLine text 0))
        (by omega) (by omega)
  refine ⟨ending, @ending_of_length target column apart.symm _ goal fun wide => ?_⟩
  have held := congrArg (·[index]?) restores.grid
  simp only [grid, List.getElem?_map, before, behind, Option.map_some, Option.some.injEq] at held
  rw [held]
  rcases Nat.lt_or_ge (max column target) (parseLine text 0).cells.length with long | short
  · exact ((length_movedText apart long 0).mpr ending).symm
  · rw [movedText_short short]
    rfl

instance (column target : Nat) (line : TableLine) : Decidable (Clean column target line) :=
  inferInstanceAs (Decidable (_ → _ → _ ∧ _))

theorem parse_moved {texts others : List Units} (laid : Laid texts others) {model : TableModel}
    (lines : model.lines = linesFrom 0 texts) (apart : column ≠ target) :
    parseTable (Splices.applied (model.lines.filterMap (moveLine column target))
        (joined lineFeed (texts ++ others))) =
      modelOf (linesFrom 0 (texts.map (movedText column target))) := by
  rw [lines, applied_moves, (laid.movedText apart).parseTable]

/-- A column moves and moves back just where every line is clean. -/
theorem move_column_permutes {span : Units} {model : TableModel}
    (accepted : parseTable span = some model) {column target : Nat}
    (inside : column < model.columns) (goes : target < model.columns) (apart : column ≠ target) :
    ∃ changes, moveColumn model column target = some changes ∧
      ((∃ after, parseTable (Splices.applied changes span) = some after ∧
          Moves column target model after ∧
          ∃ others back, moveColumn after target column = some others ∧
            parseTable (Splices.applied others (Splices.applied changes span)) = some back ∧
            Restores model back) ↔
        ∀ line ∈ model.lines, Clean column target line) := by
  obtain ⟨texts, blanks, laid, rfl, modeled⟩ := exists_laid accepted
  obtain ⟨header, rule, rows, whole, lines, columns, aligns, -⟩ := exists_of_modelOf modeled
  have both : max column target < model.columns := by omega
  have read := @parse_moved column target _ _ laid _ lines apart
  have spliced : Splices.applied (model.lines.filterMap (moveLine column target))
      (joined lineFeed (texts ++ blanks)) =
        joined lineFeed (texts.map (movedText column target) ++ blanks) := by
    rw [lines, applied_moves]
  have again (after : TableModel)
      (moved : after.lines = linesFrom 0 (texts.map (movedText column target))) :=
    @parse_moved target column _ _ (laid.movedText apart) _ moved apart.symm
  refine ⟨_, moveColumn_eq both apart, ?_, ?_⟩
  · rintro ⟨after, accepted, moves, others, back, changes, returned, restores⟩ line member
    rw [read] at accepted
    obtain ⟨-, -, -, -, moved, -⟩ := exists_of_modelOf accepted
    rw [moveColumn_eq (by rw [moves.columns]; omega) apart.symm] at changes
    cases changes
    rw [spliced, again after moved] at returned
    obtain ⟨-, -, -, -, last, -⟩ := exists_of_modelOf returned
    rw [lines] at member
    obtain ⟨text, among, start, rfl⟩ := exists_of_mem_linesFrom member
    exact (clean_iff apart 0).mpr
      (ending_of_moves lines moved last moves restores apart among)
  · intro clean
    have each (text : Units) (member : text ∈ texts) :
        Ending column target (parseLine text 0) ∧
          Ending target column (parseLine (movedText column target text) 0) := by
      obtain ⟨index, standing⟩ := List.mem_iff_getElem?.mp member
      obtain ⟨place, found⟩ := linesFrom_getElem? 0 index texts
      rw [standing, Option.map_some, ← lines] at found
      have held := clean _ (List.mem_of_getElem? found)
      exact (clean_iff apart 0).mp held
    obtain ⟨after, moved, moves⟩ := moves_of_ending laid modeled both apart
      fun text member => (each text member).1
    obtain ⟨-, -, -, -, movedLines, -⟩ := exists_of_modelOf moved
    have others : max target column < after.columns := by
      rw [moves.columns]
      omega
    obtain ⟨back, returned, returns⟩ := moves_of_ending (laid.movedText apart) moved others
      apart.symm fun text member => by
        obtain ⟨before, among, rfl⟩ := List.mem_map.mp member
        exact (each before among).2
    refine ⟨after, read.trans moved, moves, _, back, moveColumn_eq others apart.symm, ?_,
      moves.restores returns both ?_ ?_⟩
    · rw [spliced, again after movedLines, returned]
    · rw [aligns, List.length_map, List.length_range, columns]
    · rw [lines, whole]
      exact ⟨rule, rfl⟩

/-- A table of bare lines, one of them too short. -/
def raggedSpan : Units := units "a|b| c\n-|:-:|-\nx\n\\\\| |z"

theorem move_column_permutes_ragged :
    ∃ model changes after others back, parseTable raggedSpan = some model ∧
      moveColumn model 2 0 = some changes ∧
      parseTable (Splices.applied changes raggedSpan) = some after ∧ Moves 2 0 model after ∧
      moveColumn after 0 2 = some others ∧
      parseTable (Splices.applied others (Splices.applied changes raggedSpan)) = some back ∧
      Restores model back := by
  have accepted : (parseTable raggedSpan).isSome = true := by decide
  obtain ⟨model, modeled⟩ := Option.isSome_iff_exists.mp accepted
  have columns : (parseTable raggedSpan).map TableModel.columns = some 3 := by decide
  have clean : ∀ line ∈ ((parseTable raggedSpan).map TableModel.lines).getD [],
      Clean 2 0 line := by decide
  rw [modeled] at columns clean
  have three : model.columns = 3 := Option.some.inj columns
  obtain ⟨changes, moved, kept⟩ := @move_column_permutes _ _ modeled 2 0 (by omega) (by omega)
    (by decide)
  obtain ⟨after, read, moves, others, back, again, returned, restores⟩ := kept.mpr clean
  exact ⟨model, changes, after, others, back, modeled, moved, read, moves, again, returned,
    restores⟩

/-- A cell that ends in a backslash, at the end of a bare line. -/
def escapingSpan : Units := units "a|b\n-|-\nx|z\\"

/-- Put before the other cell it escapes the pipe between them, and the line has one cell. -/
theorem escaped_pipe_joins_cells :
    (parseTable escapingSpan).map grid =
        some [[units "a", units "b"], [units "-", units "-"], [units "x", units "z\\"]] ∧
      ((parseTable escapingSpan).bind fun model => (moveColumn model 1 0).bind fun changes =>
        parseTable (Splices.applied changes escapingSpan)).map grid =
          some [[units "b", units "a"], [units "-", units "-"], [units "z\\|x"]] := by
  decide

end Crystalline.Tables
