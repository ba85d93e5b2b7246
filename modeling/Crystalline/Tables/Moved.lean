import Crystalline.Tables.Moving
import Crystalline.Tables.Spans

/-!
# Lines after a move

A row whose last cell ends in blanks is not read as it was put together: without a pipe
behind it, the blanks are the line's.  The cells are read all the same, but for blanks.
So a line whose cells are moved is read with its cells moved, unless a cell that ends in
a backslash comes to stand before a pipe: that pipe is then escaped, and two cells are
read as one.
-/

namespace Crystalline.Tables

section

open Marks (joined Cut Unmarked escapes)
open Moving (moved)

/-- Nothing, or nothing that a line would start with. -/
def blankStart (opening : Units) : Bool :=
  opening.isEmpty || opening.head?.any isBlank

def moveLine (column target : Nat) (line : TableLine) : Option SpanChange :=
  let low := min column target
  let high := max column target
  if line.cells.length ≤ high then none
  else
    let slots := (line.cells.take (high + 1)).drop low
    let order := moved (column - low) (target - low) (List.range slots.length)
    let raws := order.map fun place => (slots[place]?.map TableCell.raw).getD []
    match slots.head?, slots.getLast? with
    | some first, some last =>
        let bare := low = 0 && !line.leadingPipe
        let needsPipe := bare && blankStart (raws.headD [])
        let openEnd := high = line.cells.length - 1 && !line.trailingPipe
        let needsClose := openEnd && (trim (raws.getLastD [])).isEmpty
        let text := (if needsPipe then [pipe] else []) ++ joined pipe raws ++
          (if needsClose then [pipe] else [])
        if text = slice line.text first.start last.stop then none
        else some {
          start := line.start + first.start
          stop := line.start + last.stop
          insert := text }
    | _, _ => none

def moveColumn (model : TableModel) (column target : Nat) : Option (List SpanChange) :=
  if column ≥ model.columns || target ≥ model.columns then none
  else if column = target then none
  else some (model.lines.filterMap (moveLine column target))

/-- The row with its cells moved, and a pipe at an edge that a blank cell comes to. -/
def Row.moved (row : Row) (column target : Nat) : Row where
  indent := row.indent
  leading := row.leading ||
    (decide (min column target = 0) &&
      blankStart ((Moving.moved column target row.cells).headD []))
  cells := Moving.moved column target row.cells
  trailing := row.trailing ||
    (decide (max column target + 1 = row.cells.length) &&
      (trim ((Moving.moved column target row.cells).getLastD [])).isEmpty)
  blanks := row.blanks

/-- The cells of a row before, between and behind two columns, and where the columns stand
among those between. -/
structure Between (row : Row) (column target : Nat) (front middle back : List Units)
    (place goal : Nat) : Prop where
  cells : row.cells = front ++ middle ++ back
  inPlace : place < middle.length
  inGoal : goal < middle.length
  fromPlace : column = front.length + place
  toGoal : target = front.length + goal
  low : min column target = front.length
  high : max column target + 1 = front.length + middle.length

theorem exists_between {row : Row} {column target : Nat}
    (within : max column target < row.cells.length) :
    ∃ front middle back place goal, Between row column target front middle back place goal := by
  refine ⟨row.cells.take (min column target),
    (row.cells.take (max column target + 1)).drop (min column target),
    row.cells.drop (max column target + 1), column - min column target,
    target - min column target, ?_, ?_, ?_, ?_, ?_, ?_, ?_⟩
  · have front : row.cells.take (min column target) =
        (row.cells.take (max column target + 1)).take (min column target) := by
      rw [List.take_take]
      congr 1
      omega
    rw [front, List.take_append_drop, List.take_append_drop]
  all_goals
    simp only [List.length_drop, List.length_take]
    omega

namespace Between

/-- The text before the cells that are laid out anew. -/
def before (row : Row) (front : List Units) : Units :=
  row.indent ++ edge row.leading ++ Marks.ahead pipe front

/-- The text behind them. -/
def after (row : Row) (back : List Units) : Units :=
  Marks.behind pipe back ++ edge row.trailing ++ row.blanks

/-- Whether a pipe comes before the cells. -/
def needsPipe (row : Row) (front raws : List Units) : Bool :=
  decide (front.length = 0) && !row.leading && blankStart (raws.headD [])

/-- Whether a pipe comes behind the cells. -/
def needsClose (row : Row) (back raws : List Units) : Bool :=
  decide (back.length = 0) && !row.trailing && (trim (raws.getLastD [])).isEmpty

/-- What is put in the place of the cells. -/
def laidOut (row : Row) (front raws back : List Units) : Units :=
  edge (needsPipe row front raws) ++ joined pipe raws ++ edge (needsClose row back raws)

theorem edge_needsPipe (row : Row) (front raws : List Units) :
    edge row.leading ++ Marks.ahead pipe front ++ edge (needsPipe row front raws) =
      edge (row.leading || needsPipe row front raws) ++ Marks.ahead pipe front := by
  cases needs : needsPipe row front raws with
  | false => rw [edge_false, List.append_nil, Bool.or_false]
  | true =>
      simp only [needsPipe, Bool.and_eq_true, decide_eq_true_eq] at needs
      have bare : row.leading = false := by simpa using needs.1.2
      rw [List.length_eq_zero_iff.mp needs.1.1, bare]
      rfl

theorem edge_needsClose (row : Row) (back raws : List Units) :
    edge (needsClose row back raws) ++ Marks.behind pipe back ++ edge row.trailing =
      Marks.behind pipe back ++ edge (row.trailing || needsClose row back raws) := by
  cases needs : needsClose row back raws with
  | false => rw [edge_false, List.nil_append, Bool.or_false]
  | true =>
      simp only [needsClose, Bool.and_eq_true, decide_eq_true_eq] at needs
      have bare : row.trailing = false := by simpa using needs.1.2
      rw [List.length_eq_zero_iff.mp needs.1.1, bare]
      rfl

variable {row : Row} {column target : Nat} {front middle back : List Units} {place goal : Nat}
  (parts : Between row column target front middle back place goal)
include parts

theorem present : middle ≠ [] :=
  List.ne_nil_of_length_pos (Nat.lt_of_le_of_lt (Nat.zero_le _) parts.inPlace)

theorem moved_ne_nil : moved place goal middle ≠ [] := by
  apply List.ne_nil_of_length_pos
  rw [Moving.length_moved parts.inPlace parts.inGoal]
  exact List.length_pos_iff.mpr parts.present

theorem cells_moved :
    moved column target row.cells = front ++ moved place goal middle ++ back := by
  rw [parts.cells, parts.fromPlace, parts.toGoal,
    Moving.moved_within back parts.inPlace parts.inGoal]

theorem text : row.text = before row front ++ joined pipe middle ++ after row back := by
  rw [Row.text, Row.body, parts.cells, List.append_assoc front,
    Marks.joined_ahead pipe front (List.append_ne_nil_of_left_ne_nil parts.present back),
    Marks.joined_behind pipe parts.present]
  simp only [before, after, List.append_assoc]

theorem leading_moved :
    (row.moved column target).leading =
      (row.leading || needsPipe row front (Moving.moved place goal middle)) := by
  change (row.leading || (decide (min column target = 0) &&
    blankStart ((Moving.moved column target row.cells).headD []))) = _
  rw [parts.low, parts.cells_moved, needsPipe]
  cases row.leading with
  | true => rfl
  | false =>
      cases front with
      | nil =>
          obtain ⟨first, rest, same⟩ := List.exists_cons_of_ne_nil parts.moved_ne_nil
          rw [same]
          rfl
      | cons cell front => rfl

theorem trailing_moved :
    (row.moved column target).trailing =
      (row.trailing || needsClose row back (Moving.moved place goal middle)) := by
  have atEnd : max column target + 1 = row.cells.length ↔ back.length = 0 := by
    rw [parts.high, parts.cells, List.length_append, List.length_append]
    omega
  change (row.trailing || (decide (max column target + 1 = row.cells.length) &&
    (trim ((Moving.moved column target row.cells).getLastD [])).isEmpty)) = _
  have same : decide (max column target + 1 = row.cells.length) = decide (back.length = 0) :=
    decide_eq_decide.mpr atEnd
  rw [same, parts.cells_moved, needsClose]
  cases row.trailing with
  | true => rfl
  | false =>
      cases back with
      | nil =>
          obtain ⟨others, last, same⟩ :=
            (List.eq_nil_or_concat (Moving.moved place goal middle)).resolve_left
              parts.moved_ne_nil
          rw [same, List.concat_eq_append, List.append_nil, ← List.append_assoc,
            List.getLastD_concat, List.getLastD_concat]
          rfl
      | cons cell back => rfl

theorem text_moved :
    (row.moved column target).text =
      before row front ++ laidOut row front (Moving.moved place goal middle) back ++
        after row back := by
  have opening := edge_needsPipe row front (Moving.moved place goal middle)
  have closing := edge_needsClose row back (Moving.moved place goal middle)
  rw [Row.text, Row.body, show (row.moved column target).cells = _ from parts.cells_moved,
    parts.leading_moved, parts.trailing_moved,
    List.append_assoc front,
    Marks.joined_ahead pipe front (List.append_ne_nil_of_left_ne_nil parts.moved_ne_nil back),
    Marks.joined_behind pipe parts.moved_ne_nil]
  calc _ = row.indent ++ (edge (row.leading ||
          needsPipe row front (Moving.moved place goal middle)) ++ Marks.ahead pipe front) ++
        joined pipe (Moving.moved place goal middle) ++
        (Marks.behind pipe back ++ edge (row.trailing ||
          needsClose row back (Moving.moved place goal middle))) ++
        row.blanks := by simp only [List.append_assoc, Row.moved]
    _ = _ := by
        rw [← opening, ← closing]
        simp only [before, after, laidOut, List.append_assoc]

theorem slots (start : Nat) :
    ((laid start row.cells).take (max column target + 1)).drop (min column target) =
      laid (start + (Marks.ahead pipe front).length) middle := by
  have ahead : (laid start front).length = min column target := by
    rw [length_laid, parts.low]
  have both : (laid start (front ++ middle)).length = max column target + 1 := by
    rw [length_laid, parts.high, List.length_append]
  rw [parts.cells, laid_append, ← both, List.take_left, laid_append, ← ahead, List.drop_left]

/-- The cells that are laid out anew, in their order. -/
theorem raws (start : Nat) :
    (moved (column - min column target) (target - min column target)
        (List.range (laid start middle).length)).map (fun index =>
          ((laid start middle)[index]?.map TableCell.raw).getD []) =
      moved place goal middle := by
  have fromPlace : column - min column target = place := by
    rw [parts.low, parts.fromPlace, Nat.add_sub_cancel_left]
  have toGoal : target - min column target = goal := by
    rw [parts.low, parts.toGoal, Nat.add_sub_cancel_left]
  have length : (List.range (laid start middle).length).length = middle.length := by
    rw [List.length_range, length_laid]
  have each : (List.range (laid start middle).length).map (fun index =>
      ((laid start middle)[index]?.map TableCell.raw).getD []) = middle := by
    apply List.ext_getElem?
    intro index
    rw [List.getElem?_map, length_laid]
    rcases Nat.lt_or_ge index middle.length with within | beyond
    · rw [List.getElem?_range within, Option.map_some, ← List.getElem?_map, map_raw_laid,
        List.getElem?_eq_getElem within]
      rfl
    · rw [List.getElem?_eq_none (by rwa [List.length_range]), List.getElem?_eq_none beyond]
      rfl
  rw [fromPlace, toGoal, Moving.map_moved _ _ _ (by rw [length]; exact parts.inPlace)
    (by rw [length]; exact parts.inGoal), each]

theorem moveLine (proper : row.Proper) (start : Nat) :
    moveLine column target (parseLine row.text start) =
      if laidOut row front (Moving.moved place goal middle) back = joined pipe middle then none
      else some {
        start := start + (before row front).length
        stop := start + ((before row front).length + (joined pipe middle).length)
        insert := laidOut row front (Moving.moved place goal middle) back } := by
  have long : ¬ (laid row.start row.cells).length ≤ max column target := by
    have := parts.high
    rw [length_laid, parts.cells, List.length_append, List.length_append]
    omega
  have place : row.start + (Marks.ahead pipe front).length = (before row front).length := by
    simp only [before, Row.start, List.length_append]
  obtain ⟨first, head, opens⟩ := laid_head? (before row front).length parts.present
  obtain ⟨last, final, closes⟩ := laid_getLast? (before row front).length parts.present
  have atStart : decide (min column target = 0) = decide (front.length = 0) := by
    rw [parts.low]
  have atEnd : decide (max column target = (laid row.start row.cells).length - 1) =
      decide (back.length = 0) := by
    have := parts.high
    have := List.length_pos_iff.mpr parts.present
    apply decide_eq_decide.mpr
    rw [length_laid, parts.cells, List.length_append, List.length_append]
    omega
  rw [proper.parseLine, Tables.moveLine]
  simp only
  rw [if_neg long, parts.slots, place, head, final]
  simp only
  rw [parts.raws, atStart, atEnd, opens, closes, parts.text, Row.slice_middle]
  rfl

theorem edited (proper : row.Proper) :
    Splices.Work.edited (row.text, Tables.moveLine column target (parseLine row.text 0)) =
      (row.moved column target).text := by
  rw [parts.text_moved, parts.moveLine proper]
  by_cases same : laidOut row front (Moving.moved place goal middle) back = joined pipe middle
  · rw [if_pos same, same, ← parts.text]
    rfl
  · rw [if_neg same]
    have within : Splices.Splice.Within (joined pipe middle)
        ⟨0, (joined pipe middle).length,
          laidOut row front (Moving.moved place goal middle) back⟩ :=
      ⟨Nat.zero_le _, Nat.le_refl _⟩
    have spliced := Splices.Splice.apply_shift within (before row front) (after row back)
    rw [← parts.text] at spliced
    change Splices.Splice.apply _ row.text = _
    rw [Nat.zero_add, Nat.zero_add]
    refine spliced.trans ?_
    simp [Splices.Splice.apply]

end Between

end

open Marks (joined Cut Unmarked escapes)
open Moving (moved)

/-- The row is read as it was put together, but for blanks at its end. -/
structure Row.Readable (row : Row) : Prop where
  nonempty : row.cells ≠ []
  indented : ∀ unit ∈ row.indent, isIndent unit = true
  blank : ∀ unit ∈ row.blanks, isBlank unit = true
  cut : Cut backslash pipe false row.cells
  closed : row.trailing = true → escapes backslash false row.body = false
  opens : row.leading = false →
    ∀ unit ∈ (row.body ++ edge row.trailing ++ row.blanks).head?,
      isIndent unit = false ∧ unit ≠ pipe
  /-- Without a pipe behind it the last of several cells is more than blanks. -/
  solid : row.trailing = false → 2 ≤ row.cells.length →
    ∀ last ∈ row.cells.getLast?, trim last ≠ []

theorem trim_append_blanks {text blanks : Units} (blank : ∀ unit ∈ blanks, isBlank unit = true) :
    trim (text ++ blanks) = trim text := by
  obtain ⟨front, back, same, before, behind⟩ := exists_trim text
  have parted : text ++ blanks = front ++ trim text ++ (back ++ blanks) := by
    rw [← List.append_assoc, ← same]
  rw [parted]
  refine trim_between (trimmed_trim text) before fun unit member => ?_
  rcases List.mem_append.mp member with first | rest
  · exact behind unit first
  · exact blank unit rest

theorem texts_laid {line : TableLine} {start : Nat} {cells : List Units}
    (same : line.cells = laid start cells) : texts line = cells.map trim := by
  rw [texts, same]
  conv_rhs => rw [← map_raw_laid start cells, List.map_map]
  rfl

namespace Row

variable {row : Row}

/-- A row without a pipe at its end, the blanks of its last cell given to the line. -/
theorem exists_proper_open (readable : row.Readable) (bare : row.trailing = false) :
    ∃ tidy : Row, tidy.Proper ∧ tidy.text = row.text ∧
      tidy.trailing = false ∧ tidy.cells.map trim = row.cells.map trim := by
  obtain ⟨front, last, same⟩ := (List.eq_nil_or_concat row.cells).resolve_left readable.nonempty
  rw [List.concat_eq_append] at same
  have parts : last.rdropWhile isBlank ++ last.rtakeWhile isBlank = last :=
    List.rdropWhile_append_rtakeWhile
  have blank : ∀ unit ∈ last.rtakeWhile isBlank, isBlank unit = true :=
    fun unit member => List.mem_rtakeWhile_imp member
  have trims : trim (last.rdropWhile isBlank) = trim last := by
    rw [← trim_append_blanks blank, parts]
  have body : joined pipe (front ++ [last.rdropWhile isBlank]) ++ last.rtakeWhile isBlank =
      row.body := by
    rw [Row.body, same, Marks.joined_ahead pipe front (List.cons_ne_nil _ _),
      Marks.joined_ahead pipe front (List.cons_ne_nil _ _), Marks.joined_singleton,
      Marks.joined_singleton, List.append_assoc, parts]
  have cut : Cut backslash pipe false (front ++ [last.rdropWhile isBlank]) := by
    have whole := Marks.cut_iff.mp readable.cut
    rw [same, List.dropLast_concat] at whole
    refine Marks.cut_iff.mpr ⟨fun cell member => ?_, ?_⟩
    · rcases List.mem_append.mp member with other | own
      · exact whole.1 cell (List.mem_append_left _ other)
      · rw [List.mem_singleton.mp own]
        have unmarked := whole.1 last (List.mem_append_right _ List.mem_cons_self)
        rw [← parts, Marks.unmarked_append] at unmarked
        exact unmarked.1
    · rw [List.dropLast_concat]
      exact whole.2
  refine ⟨⟨row.indent, row.leading, front ++ [last.rdropWhile isBlank], false,
    last.rtakeWhile isBlank ++ row.blanks⟩, ⟨?_, readable.indented, ?_, cut,
    fun some => absurd some Bool.false_ne_true, ?_, ?_, ?_⟩, ?_, rfl, ?_⟩
  · exact List.append_ne_nil_of_right_ne_nil _ (List.cons_ne_nil _ _)
  · intro unit member
    rcases List.mem_append.mp member with first | rest
    · exact blank unit first
    · exact readable.blank unit rest
  · intro leading unit found
    apply readable.opens leading unit
    rw [bare, edge_false, List.append_nil, ← body, List.append_assoc]
    rw [edge_false, List.append_nil] at found
    exact found
  · intro _ unit found
    rw [Row.body, Marks.joined_ahead pipe front (List.cons_ne_nil _ _), Marks.joined_singleton]
      at found
    cases kept : (last.rdropWhile isBlank).getLast? with
    | some other =>
        rw [List.getLast?_append, kept] at found
        cases found
        exact Ends.not_of_getLast?_rdropWhile kept
    | none =>
        have none := List.getLast?_eq_none_iff.mp kept
        rw [none] at found trims
        cases front with
        | nil => cases found
        | cons cell front =>
            have several : 2 ≤ row.cells.length := by
              rw [same, List.length_append, List.length_cons, List.length_singleton]
              omega
            have last := readable.solid bare several last (by
              rw [same]
              exact List.getLast?_concat)
            exact absurd trims.symm last
  · intro _ many empty
    rw [List.getLast?_concat] at empty
    rw [List.length_append, List.length_singleton] at many
    apply readable.solid bare (by rw [same, List.length_append, List.length_singleton]; exact many)
      last (by rw [same]; exact List.getLast?_concat)
    rw [← trims, Option.some.inj empty]
    rfl
  · rw [Row.text, Row.text, bare, ← body]
    simp only [Row.body, edge_false, List.append_nil, List.append_assoc]
  · rw [same, List.map_append, List.map_append, List.map_singleton, List.map_singleton, trims]

theorem Readable.parseLine (readable : row.Readable) (start : Nat) :
    texts (parseLine row.text start) = row.cells.map trim ∧
      (Tables.parseLine row.text start).trailingPipe = row.trailing := by
  cases trailing : row.trailing with
  | true =>
      have proper : row.Proper :=
        ⟨readable.nonempty, readable.indented, readable.blank, readable.cut, readable.closed,
          readable.opens, fun bare => absurd (trailing.symm.trans bare) (by decide),
          fun bare => absurd (trailing.symm.trans bare) (by decide)⟩
      rw [proper.parseLine]
      exact ⟨texts_laid rfl, trailing⟩
  | false =>
      obtain ⟨tidy, proper, same, bare, cells⟩ := exists_proper_open readable trailing
      rw [← same, proper.parseLine]
      exact ⟨(texts_laid rfl).trans cells, bare⟩

end Row

namespace Row.Proper

variable {row : Row} (proper : row.Proper)
include proper

variable {cell : Units}

theorem unmarked (member : cell ∈ row.cells) : Unmarked backslash pipe false cell :=
  (Marks.cut_iff.mp proper.cut).1 cell member

theorem closed_of_mem_dropLast (member : cell ∈ row.cells.dropLast) :
    escapes backslash false cell = false :=
  (Marks.cut_iff.mp proper.cut).2 cell member

theorem closed_last (trailing : row.trailing = true) :
    ∀ last ∈ row.cells.getLast?, escapes backslash false last = false := by
  intro last found
  obtain ⟨front, same⟩ := List.getLast?_eq_some_iff.mp found
  have closed := proper.closed trailing
  rwa [Row.body, same, Marks.escapes_joined pipe_ne_backslash] at closed

theorem closed_all (last : ∀ last ∈ row.cells.getLast?, escapes backslash false last = false)
    (member : cell ∈ row.cells) : escapes backslash false cell = false := by
  obtain ⟨front, final, same⟩ := (List.eq_nil_or_concat row.cells).resolve_left proper.nonempty
  rw [List.concat_eq_append] at same
  rw [same] at member
  rcases List.mem_append.mp member with other | own
  · exact proper.closed_of_mem_dropLast (by rw [same, List.dropLast_concat]; exact other)
  · rw [List.mem_singleton.mp own]
    exact last final (by rw [same]; exact List.getLast?_concat)

theorem exists_first (bare : row.leading = false) (several : 2 ≤ row.cells.length) :
    ∃ unit piece rest, row.cells = (unit :: piece) :: rest ∧ isIndent unit = false ∧
      unit ≠ pipe := by
  obtain ⟨cell, cells, same⟩ := List.exists_cons_of_ne_nil proper.nonempty
  obtain ⟨next, rest, rfl⟩ : ∃ next rest, cells = next :: rest := by
    apply List.exists_cons_of_ne_nil
    rintro rfl
    rw [same] at several
    simp at several
  cases cell with
  | nil =>
      have starts := proper.opens bare pipe (by
        rw [Row.body, same, Marks.joined_cons_cons]
        rfl)
      exact absurd rfl starts.2
  | cons unit piece =>
      have starts := proper.opens bare unit (by
        rw [Row.body, same, Marks.joined_cons_cons]
        rfl)
      exact ⟨unit, piece, _, same, starts⟩

theorem last_solid (bare : row.trailing = false) (several : 2 ≤ row.cells.length) {last : Units}
    (found : last ∈ row.cells.getLast?) :
    last ≠ [] ∧ ∀ unit ∈ last.getLast?, isBlank unit = false := by
  have present : last ≠ [] := by
    rintro rfl
    exact proper.last bare several found
  refine ⟨present, fun unit ends => proper.ends bare unit ?_⟩
  obtain ⟨front, same⟩ := List.getLast?_eq_some_iff.mp found
  rw [Row.body, same, Marks.joined_ahead pipe front (List.cons_ne_nil _ _),
    Marks.joined_singleton, List.getLast?_append, show last.getLast? = some unit from ends]
  rfl

end Row.Proper

variable {text : Units}

theorem escapes_trim (ends : ∀ unit ∈ text.getLast?, isBlank unit = false) :
    escapes backslash false (trim text) = escapes backslash false text := by
  obtain ⟨front, back, same, before, behind⟩ := exists_trim text
  have none : back = [] := by
    rcases List.eq_nil_or_concat back with none | ⟨others, unit, some⟩
    · exact none
    · rw [List.concat_eq_append] at some
      have blank := behind unit (by rw [some]; simp)
      rw [ends unit (by rw [same, some, ← List.append_assoc]; exact List.getLast?_concat)]
        at blank
      cases blank
  conv_rhs => rw [same, none, List.append_nil, Marks.escapes_append, escapes_blanks before]

theorem blank_of_trim_eq_nil (empty : trim text = []) : ∀ unit ∈ text, isBlank unit = true := by
  obtain ⟨front, back, same, before, behind⟩ := exists_trim text
  rw [empty, List.append_nil] at same
  intro unit member
  rw [same] at member
  rcases List.mem_append.mp member with first | last
  · exact before unit first
  · exact behind unit last

theorem trim_ne_nil (present : text ≠ []) (ends : ∀ unit ∈ text.getLast?, isBlank unit = false) :
    trim text ≠ [] := by
  obtain ⟨front, unit, same⟩ := (List.eq_nil_or_concat text).resolve_left present
  rw [List.concat_eq_append] at same
  have solid := ends unit (by rw [same]; exact List.getLast?_concat)
  have some := @isEmpty_trim_of_mem text unit (by rw [same]; simp) solid
  exact List.isEmpty_eq_false_iff.mp some

namespace Between

variable {row : Row} {column target : Nat} {front middle back : List Units} {place goal : Nat}
  (parts : Between row column target front middle back place goal) (proper : row.Proper)
  (apart : column ≠ target)
include parts

omit proper apart in
theorem mem_moved {cell : Units} (member : cell ∈ moved place goal middle) : cell ∈ middle :=
  Moving.mem_of_mem_moved parts.inPlace parts.inGoal member

include apart in
theorem several : 2 ≤ middle.length := by
  have := parts.low
  have := parts.high
  omega

include apart in
theorem several_cells : 2 ≤ row.cells.length := by
  have := parts.several apart
  rw [parts.cells, List.length_append, List.length_append]
  omega

include proper apart

/-- What comes to the start of the line starts it. -/
theorem opens_moved (bare : (row.moved column target).leading = false) :
    ∀ unit ∈ ((row.moved column target).body ++ edge (row.moved column target).trailing ++
      (row.moved column target).blanks).head?, isIndent unit = false ∧ unit ≠ pipe := by
  rw [parts.leading_moved, Bool.or_eq_false_iff] at bare
  obtain ⟨bare, needless⟩ := bare
  have starts : ∃ unit piece rest, (row.moved column target).cells = (unit :: piece) :: rest ∧
      isIndent unit = false ∧ unit ≠ pipe := by
    rw [show (row.moved column target).cells = _ from parts.cells_moved]
    cases front with
    | nil =>
        obtain ⟨opening, rest, same⟩ := List.exists_cons_of_ne_nil parts.moved_ne_nil
        rw [needsPipe, bare, same] at needless
        have among : opening ∈ row.cells := by
          have first : opening ∈ Moving.moved place goal middle := by
            rw [same]
            exact List.mem_cons_self
          have member := parts.mem_moved first
          rw [parts.cells]
          simp [member]
        have unmarked := proper.unmarked among
        cases opening with
        | nil => cases needless
        | cons unit piece =>
            have solid : isBlank unit = false := needless
            refine ⟨unit, piece, rest ++ back, by rw [same]; rfl, ?_, ?_⟩
            · by_contra indent
              rw [isBlank_of_isIndent (by simpa using indent)] at solid
              cases solid
            · exact fun isPipe => (Marks.unmarked_cons.mp unmarked).1 ⟨isPipe, rfl⟩
    | cons cell front =>
        obtain ⟨unit, piece, rest, same, starts⟩ :=
          proper.exists_first bare (parts.several_cells apart)
        rw [parts.cells] at same
        obtain ⟨rfl, -⟩ := List.cons.inj same
        exact ⟨unit, piece, _, rfl, starts⟩
  obtain ⟨unit, piece, rest, same, starts⟩ := starts
  intro other found
  rw [Row.body, same] at found
  cases rest with
  | nil =>
      rw [Marks.joined_singleton] at found
      cases found
      exact starts
  | cons next rest =>
      rw [Marks.joined_cons_cons] at found
      cases found
      exact starts

omit apart in
/-- The pipe at the end of the line is no cell's escaped one. -/
theorem closed_moved (trailing : (row.moved column target).trailing = true) :
    escapes backslash false (row.moved column target).body = false := by
  obtain ⟨others, last, same⟩ :=
    (List.eq_nil_or_concat (row.moved column target).cells).resolve_left (by
      rw [show (row.moved column target).cells = _ from parts.cells_moved]
      simp [parts.moved_ne_nil])
  rw [List.concat_eq_append] at same
  rw [Row.body, same, Marks.escapes_joined pipe_ne_backslash]
  cases own : row.trailing with
  | true =>
      apply proper.closed_all (proper.closed_last own)
      have member : last ∈ (row.moved column target).cells := by
        rw [same]
        simp
      rw [show (row.moved column target).cells = _ from parts.cells_moved] at member
      rw [parts.cells]
      simp only [List.mem_append] at member ⊢
      exact member.imp_left (Or.imp_right parts.mem_moved)
  | false =>
      rw [parts.trailing_moved, own, Bool.false_or, needsClose] at trailing
      simp only [Bool.and_eq_true, decide_eq_true_eq] at trailing
      obtain ⟨⟨none, -⟩, empty⟩ := trailing
      obtain ⟨init, closing, ends⟩ :=
        (List.eq_nil_or_concat (Moving.moved place goal middle)).resolve_left parts.moved_ne_nil
      rw [List.concat_eq_append] at ends
      rw [show (row.moved column target).cells = _ from parts.cells_moved,
        List.length_eq_zero_iff.mp none, List.append_nil, ends, ← List.append_assoc] at same
      obtain rfl := (List.append_inj' same rfl).2 |> List.cons.inj |>.1
      rw [ends, List.getLastD_concat] at empty
      exact escapes_blanks (blank_of_trim_eq_nil (List.isEmpty_iff.mp empty))

theorem solid_moved (bare : (row.moved column target).trailing = false) :
    ∀ last ∈ (row.moved column target).cells.getLast?, trim last ≠ [] := by
  rw [parts.trailing_moved, Bool.or_eq_false_iff] at bare
  obtain ⟨bare, needless⟩ := bare
  rw [show (row.moved column target).cells = _ from parts.cells_moved]
  intro last found
  rcases List.eq_nil_or_concat back with rfl | ⟨others, final, same⟩
  · rw [List.append_nil, List.getLast?_append] at found
    obtain ⟨init, closing, same⟩ :=
      (List.eq_nil_or_concat (Moving.moved place goal middle)).resolve_left parts.moved_ne_nil
    rw [List.concat_eq_append] at same
    rw [same, List.getLast?_concat] at found
    cases found
    rw [needsClose, bare, same, List.getLastD_concat] at needless
    exact List.isEmpty_eq_false_iff.mp needless
  · rw [same, List.concat_eq_append, ← List.append_assoc, List.getLast?_concat] at found
    cases found
    have final : last ∈ row.cells.getLast? := by
      rw [parts.cells, same, List.concat_eq_append, ← List.append_assoc]
      exact List.getLast?_concat
    obtain ⟨present, ends⟩ := proper.last_solid bare (parts.several_cells apart) final
    exact trim_ne_nil present ends

/-- Cells moved so that none is cut off by an escaped pipe are read where they went. -/
theorem readable_moved (sound : row.trailing = false → back = [] →
      ∀ last ∈ row.cells.getLast?, escapes backslash false last = false) :
    (row.moved column target).Readable := by
  have cells : (row.moved column target).cells = _ := parts.cells_moved
  refine ⟨?_, proper.indented, proper.blank, ?_, parts.closed_moved proper,
    parts.opens_moved proper apart, fun bare _ => parts.solid_moved proper apart bare⟩
  · rw [cells]
    simp [parts.moved_ne_nil]
  · rw [cells]
    refine Marks.cut_iff.mpr ⟨fun cell member => ?_, fun cell member => ?_⟩
    · apply proper.unmarked
      rw [parts.cells]
      simp only [List.mem_append] at member ⊢
      exact member.imp_left (Or.imp_right parts.mem_moved)
    · rcases List.eq_nil_or_concat back with none | ⟨others, final, same⟩
      · apply proper.closed_all
        · cases trailing : row.trailing with
          | true => exact proper.closed_last trailing
          | false => exact sound trailing none
        · have among := (List.dropLast_sublist _).subset member
          rw [parts.cells]
          simp only [List.mem_append] at among ⊢
          exact among.imp_left (Or.imp_right parts.mem_moved)
      · apply proper.closed_of_mem_dropLast
        rw [same, List.concat_eq_append, ← List.append_assoc, List.dropLast_concat] at member
        rw [parts.cells, same, List.concat_eq_append, ← List.append_assoc, List.dropLast_concat]
        simp only [List.mem_append] at member ⊢
        exact member.imp_left (Or.imp_right parts.mem_moved)

omit proper in
/-- The last of the cells comes to stand before another one. -/
theorem exists_before {others : List Units} {last : Units} (same : middle = others ++ [last]) :
    ∃ some next more, moved place goal middle = some ++ last :: next :: more ∧
      ∀ cell ∈ some ++ next :: more, cell ∈ others := by
  have low := parts.low
  have high := parts.high
  have fromPlace := parts.fromPlace
  have toGoal := parts.toGoal
  have length : middle.length = others.length + 1 := by
    rw [same, List.length_append, List.length_singleton]
  have several := parts.several apart
  obtain ⟨first, rest, whole⟩ := List.exists_cons_of_ne_nil (l := others)
    (List.ne_nil_of_length_pos (by omega))
  rcases Nat.lt_or_ge column target with forward | backward
  · obtain rfl : place = 0 := by omega
    have atEnd : goal = (rest ++ [last]).length := by
      rw [whole, List.length_cons] at length
      rw [List.length_append, List.length_singleton]
      omega
    refine ⟨rest, first, [], ?_, ?_⟩
    · rw [same, whole, atEnd, List.cons_append, Moving.moved_first]
      simp
    · intro cell member
      rw [whole]
      simp only [List.mem_append, List.mem_singleton] at member
      exact List.mem_cons.mpr member.symm
  · obtain rfl : goal = 0 := by omega
    have atEnd : place = others.length := by omega
    refine ⟨[], first, rest, ?_, ?_⟩
    · rw [same, atEnd, Moving.moved_last, whole]
      rfl
    · intro cell member
      rw [whole]
      exact member

/-- A cell that escapes the pipe behind it is read as one with the next. -/
theorem length_moved_escaped {last : Units} (none : back = [])
    (final : last ∈ row.cells.getLast?) (escaping : escapes backslash false last = true)
    (start : Nat) :
    (texts (parseLine (row.moved column target).text start)).length + 1 = row.cells.length := by
  obtain ⟨others, closing, same⟩ := (List.eq_nil_or_concat middle).resolve_left parts.present
  rw [List.concat_eq_append] at same
  have whole : row.cells = (front ++ others) ++ [last] := by
    have cells := parts.cells
    rw [none, List.append_nil, same, ← List.append_assoc] at cells
    rw [cells, List.getLast?_concat] at final
    cases final
    exact cells
  obtain rfl : closing = last := by
    have cells := parts.cells
    rw [none, List.append_nil, same, ← List.append_assoc, whole] at cells
    exact (List.cons.inj (List.append_inj' cells rfl).2).1.symm
  obtain ⟨some, next, more, order, among⟩ := parts.exists_before apart same
  have closed {cell : Units} (member : cell ∈ front ++ (some ++ next :: more)) :
      cell ∈ row.cells ∧ escapes backslash false cell = false := by
    have inDrop : cell ∈ row.cells.dropLast := by
      rw [whole, List.dropLast_concat]
      rcases List.mem_append.mp member with first | rest
      · exact List.mem_append_left _ first
      · exact List.mem_append_right _ (among cell rest)
    exact ⟨(List.dropLast_sublist _).subset inDrop, proper.closed_of_mem_dropLast inDrop⟩
  have cells : (row.moved column target).cells =
      (front ++ some) ++ closing :: next :: more := by
    rw [show (row.moved column target).cells = _ from parts.cells_moved, none, order]
    simp
  have body : joined pipe ((front ++ some) ++ (closing ++ pipe :: next) :: more) =
      (row.moved column target).body := by
    rw [Row.body, cells, Marks.joined_merge]
  have nextClosed := @closed next (by simp)
  have both : Unmarked backslash pipe false (closing ++ pipe :: next) ∧
      escapes backslash false (closing ++ pipe :: next) = false := by
    have unmarked := proper.unmarked (List.mem_of_getLast? final)
    rw [Marks.unmarked_append, Marks.escapes_append, escaping, Marks.unmarked_cons]
    exact ⟨⟨unmarked, by decide, proper.unmarked nextClosed.1⟩, nextClosed.2⟩
  have apiece {cell : Units}
      (member : cell ∈ (front ++ some) ++ (closing ++ pipe :: next) :: more) :
      Unmarked backslash pipe false cell ∧ escapes backslash false cell = false := by
    simp only [List.mem_append, List.mem_cons] at member
    rcases member with (first | second) | rfl | later
    · have own := @closed cell (by simp [first])
      exact ⟨proper.unmarked own.1, own.2⟩
    · have own := @closed cell (by simp [second])
      exact ⟨proper.unmarked own.1, own.2⟩
    · exact both
    · have own := @closed cell (by simp [later])
      exact ⟨proper.unmarked own.1, own.2⟩
  -- the same text with the two cells taken for one
  have merged : { row.moved column target with
      cells := (front ++ some) ++ (closing ++ pipe :: next) :: more }.Readable := by
    refine ⟨by simp, proper.indented, proper.blank, ?_, fun trailing => ?_, fun leading => ?_,
      fun open_ _ => ?_⟩
    · exact Marks.cut_iff.mpr ⟨fun cell member => (apiece member).1,
        fun cell member => (apiece ((List.dropLast_sublist _).subset member)).2⟩
    · rw [Row.body, body]
      exact parts.closed_moved proper trailing
    · rw [Row.body, body]
      exact parts.opens_moved proper apart leading
    · intro ending found
      rcases List.eq_nil_or_concat more with rfl | ⟨init, ends, same⟩
      · rw [List.getLast?_concat] at found
        cases found
        exact List.isEmpty_eq_false_iff.mp
          (isEmpty_trim_of_mem (by simp) not_isBlank_pipe)
      · apply parts.solid_moved proper apart open_
        rw [cells, same, List.concat_eq_append, ← List.cons_append, ← List.cons_append,
          ← List.append_assoc, List.getLast?_concat]
        rw [same, List.concat_eq_append, ← List.cons_append, ← List.append_assoc,
          List.getLast?_concat] at found
        exact found
  have text : { row.moved column target with
      cells := (front ++ some) ++ (closing ++ pipe :: next) :: more }.text =
        (row.moved column target).text := by
    rw [Row.text, Row.text, Row.body, body]
  have length := congrArg List.length order
  rw [Moving.length_moved parts.inPlace parts.inGoal, same] at length
  rw [← text, (merged.parseLine start).1, List.length_map, whole]
  simp only [List.length_append, List.length_cons, List.length_nil] at length ⊢
  omega

end Between

end Crystalline.Tables
