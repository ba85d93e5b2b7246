import Crystalline.Tables.Spans

/-!
# Prettifying a table

Every cell padded to its column's widest text, with a pipe at both edges of each line.
Only padding moves: read again, the table has its texts where they were, and is pretty.
-/

namespace Crystalline.Tables

open Marks (joined seams Cut Unmarked escapes)

def minDashes : Nat := 3

def colons : Align → Nat
  | .center => 2
  | .none => 0
  | .left => 1
  | .right => 1

def ruleWithDashes (align : Align) (dashes : Nat) : Units :=
  let bar := List.replicate (max minDashes dashes) dash
  match align with
  | .center => [colon] ++ bar ++ [colon]
  | .left => [colon] ++ bar
  | .right => bar ++ [colon]
  | .none => bar

def ruleText (align : Align) (width : Nat) : Units :=
  ruleWithDashes align (width - colons align)

def minRuleWidth (align : Align) : Nat := minDashes + colons align

def pad (text : Units) (width : Nat) (align : Align) : Units :=
  let room := width - text.length
  match align with
  | .right => List.replicate room space ++ text
  | .center =>
      let left := room / 2
      List.replicate left space ++ text ++ List.replicate (room - left) space
  | _ => text ++ List.replicate room space

/-- The cells of the widest line. -/
def columnCount (model : TableModel) : Nat :=
  model.lines.foldl (fun count line => max count line.cells.length) model.columns

def columnAlign (model : TableModel) (column : Nat) : Align :=
  model.aligns[column]?.getD .none

/-- The widest text of a column, the rule's aside, and room for the rule. -/
def columnWidth (model : TableModel) (column : Nat) : Nat :=
  model.lines.zipIdx.foldl
    (fun width item =>
      if item.2 = 1 then width else max width (cellText item.1 column).length)
    (minRuleWidth (columnAlign model column))

def fieldText (model : TableModel) (index : Nat) (line : TableLine) (column : Nat) : Units :=
  let align := columnAlign model column
  let width := columnWidth model column
  if index = 1 then ruleText align width
  else pad (cellText line column) width (if index = 0 then .left else align)

def prettyText (model : TableModel) (index : Nat) (line : TableLine) : Units :=
  let fields := (List.range (columnCount model)).map (fieldText model index line)
  line.indent ++ units "| " ++ (units " | ").intercalate fields ++ units " |"

def prettyChange (model : TableModel) (item : TableLine × Nat) : Option SpanChange :=
  let (line, index) := item
  let text := prettyText model index line
  if text = line.text then none
  else some { start := line.start, stop := line.start + line.text.length, insert := text }

def prettify (model : TableModel) (_separator : Units) : List SpanChange :=
  model.lines.zipIdx.filterMap (prettyChange model)

section
variable {β : Type*} (size : β → Nat)

/-- The greatest size, or `start`. -/
def greatest (start : Nat) (items : List β) : Nat :=
  items.foldl (fun best item => max best (size item)) start

theorem greatest_cons (start : Nat) (item : β) (items : List β) :
    greatest size start (item :: items) = greatest size (max start (size item)) items := rfl

theorem le_greatest (start : Nat) (items : List β) : start ≤ greatest size start items := by
  induction items generalizing start with
  | nil => exact Nat.le_refl _
  | cons item items induction =>
      exact Nat.le_trans (Nat.le_max_left _ _) (induction (max start (size item)))

variable {items : List β}

theorem size_le_greatest {item : β} (start : Nat) (member : item ∈ items) :
    size item ≤ greatest size start items := by
  induction items generalizing start with
  | nil => cases member
  | cons other items induction =>
      rw [greatest_cons]
      rcases List.mem_cons.mp member with rfl | later
      · exact Nat.le_trans (Nat.le_max_right _ _) (le_greatest size _ _)
      · exact induction _ later

theorem greatest_map {γ : Type*} (change : γ → β) (start : Nat) (items : List γ) :
    greatest size start (items.map change) =
      greatest (fun item => size (change item)) start items :=
  List.foldl_map

theorem greatest_of_le {start : Nat} (bounded : ∀ item ∈ items, size item ≤ start) :
    greatest size start items = start := by
  induction items with
  | nil => rfl
  | cons item items induction =>
      rw [greatest_cons, Nat.max_eq_left (bounded item List.mem_cons_self)]
      exact induction fun other member => bounded other (List.mem_cons_of_mem _ member)

end

/-- What a cell asks of its column's width. -/
def roomFor (column : Nat) (item : TableLine × Nat) : Nat :=
  if item.2 = 1 then 0 else (cellText item.1 column).length

theorem columnWidth_eq (model : TableModel) (column : Nat) :
    columnWidth model column =
      greatest (roomFor column) (minRuleWidth (columnAlign model column)) model.lines.zipIdx := by
  rw [columnWidth, greatest]
  congr 1
  funext width item
  unfold roomFor
  split
  · rw [Nat.max_zero]
  · rfl

theorem columnCount_eq (model : TableModel) :
    columnCount model =
      greatest (fun line : TableLine => line.cells.length) model.columns model.lines := rfl

theorem minRuleWidth_le (model : TableModel) (column : Nat) :
    minRuleWidth (columnAlign model column) ≤ columnWidth model column := by
  rw [columnWidth_eq]
  exact le_greatest ..

variable {model : TableModel} {index : Nat} {line : TableLine} {align : Align} {width : Nat}
  {text : Units} {texts others : List Units}

theorem length_cellText_le (found : model.lines[index]? = some line) (row : index ≠ 1)
    (column : Nat) : (cellText line column).length ≤ columnWidth model column := by
  rw [columnWidth_eq]
  have member : (line, index) ∈ model.lines.zipIdx :=
    List.mem_zipIdx_iff_getElem?.mpr found
  have room := size_le_greatest (roomFor column)
    (minRuleWidth (columnAlign model column)) member
  rwa [roomFor, if_neg row] at room

theorem length_ruleText (wide : minRuleWidth align ≤ width) :
    (ruleText align width).length = width := by
  cases align <;> simp [ruleText, ruleWithDashes, minRuleWidth, colons, minDashes] at * <;> omega

theorem length_pad (align : Align) (fits : text.length ≤ width) :
    (pad text width align).length = width := by
  cases align <;> simp [pad] <;> omega

theorem exists_pad (text : Units) (width : Nat) (align : Align) :
    ∃ left right, pad text width align =
      List.replicate left space ++ text ++ List.replicate right space := by
  cases align with
  | left => exact ⟨0, width - text.length, rfl⟩
  | center => exact ⟨_, _, rfl⟩
  | right => exact ⟨width - text.length, 0, (List.append_nil _).symm⟩
  | none => exact ⟨0, width - text.length, rfl⟩

/-- A field between its two margins. -/
def margin (field : Units) : Units := [space] ++ field ++ [space]

theorem isBlank_replicate {count : Nat} : ∀ unit ∈ List.replicate count space,
    isBlank unit = true := by
  intro unit member
  rw [List.eq_of_mem_replicate member]
  exact isBlank_space

theorem trim_margin (trimmed : Trimmed text) : trim (margin text) = text :=
  trim_between trimmed (by simp [isBlank_space]) (by simp [isBlank_space])

theorem trim_margin_pad (trimmed : Trimmed text) (width : Nat) (align : Align) :
    trim (margin (pad text width align)) = text := by
  obtain ⟨left, right, same⟩ := exists_pad text width align
  have parted : margin (pad text width align) =
      ([space] ++ List.replicate left space) ++ text ++
        (List.replicate right space ++ [space]) := by
    rw [margin, same]
    simp only [List.append_assoc]
  rw [parted]
  apply trim_between trimmed
  · simp only [List.singleton_append, List.forall_mem_cons]
    exact ⟨isBlank_space, isBlank_replicate⟩
  · intro unit member
    rcases List.mem_append.mp member with filler | last
    · exact isBlank_replicate unit filler
    · rw [List.mem_singleton.mp last]
      exact isBlank_space

theorem exists_rule (align : Align) (width : Nat) :
    ∃ dashes, ruleText align width =
      colonIf (align = .left ∨ align = .center) ++ List.replicate (dashes + 2) dash ++
        colonIf (align = .right ∨ align = .center) := by
  refine ⟨max minDashes (width - colons align) - 2, ?_⟩
  have many : max minDashes (width - colons align) - 2 + 2 =
      max minDashes (width - colons align) := by
    unfold minDashes
    omega
  rw [many]
  cases align <;> simp [ruleText, ruleWithDashes, colonIf]

theorem mem_ruleText {unit : UInt16} (member : unit ∈ ruleText align width) :
    unit = colon ∨ unit = dash := by
  obtain ⟨dashes, same⟩ := exists_rule align width
  rw [same] at member
  rcases List.mem_append.mp member with front | closes
  · rcases List.mem_append.mp front with opens | bar
    · exact .inl (mem_colonIf opens)
    · exact .inr (List.eq_of_mem_replicate bar)
  · exact .inl (mem_colonIf closes)

theorem isRule_ruleText (align : Align) (width : Nat) : IsRule (ruleText align width) := by
  obtain ⟨dashes, same⟩ := exists_rule align width
  exact ⟨_, _, dashes + 1, same⟩

theorem trimmed_ruleText (align : Align) (width : Nat) : Trimmed (ruleText align width) :=
  trimmed_of_solid (isRule_ruleText align width).solid

theorem alignOf_rule {cell : TableCell} (raw : cell.raw = margin (ruleText align width)) :
    alignOf (some cell) = align := by
  obtain ⟨dashes, same⟩ := exists_rule align width
  rw [alignOf, Option.map_some, Option.getD_some, raw, trim_margin (trimmed_ruleText ..), same]
  cases align <;> simp [List.head?_replicate, List.getLast?_replicate, List.getLast?_append,
    List.getLast?_cons, List.head?_append, colonIf, colon, dash]

theorem delimiterCell_rule (align : Align) (width : Nat) :
    delimiterCell (margin (ruleText align width)) = true := by
  rw [delimiterCell_iff, trim_margin (trimmed_ruleText ..)]
  exact isRule_ruleText ..

/-- The row of a pretty line. -/
def prettyRow (indent : Units) (fields : List Units) : Row where
  indent
  leading := true
  cells := fields.map margin
  trailing := true
  blanks := []

theorem joined_margins (field : Units) (fields : List Units) :
    joined pipe ((field :: fields).map margin) =
      [space] ++ (units " | ").intercalate (field :: fields) ++ [space] := by
  induction fields generalizing field with
  | nil => simp [margin]
  | cons next fields induction =>
      rw [List.map_cons, List.map_cons, Marks.joined_cons_cons, ← List.map_cons, induction,
        List.intercalate_cons_cons, margin]
      simp only [List.append_assoc, List.cons_append]
      rfl

variable {fields : List Units} {column : Nat}

theorem prettyRow_text (indent : Units) (present : fields ≠ []) :
    (prettyRow indent fields).text =
      indent ++ units "| " ++ (units " | ").intercalate fields ++ units " |" := by
  obtain ⟨field, fields, rfl⟩ := List.exists_cons_of_ne_nil present
  rw [Row.text, Row.body, prettyRow, joined_margins]
  simp only [edge_true, List.append_assoc]
  rfl

theorem escapes_margin (field : Units) : escapes backslash false (margin field) = false :=
  Marks.escapes_concat_of_ne (by decide) _ _

theorem unmarked_margin {field : Units} (unmarked : Unmarked backslash pipe false field) :
    Unmarked backslash pipe false (margin field) := by
  have last (escaped : Bool) : Unmarked backslash pipe escaped [space] :=
    Marks.unmarked_of_not_mem (by decide) escaped
  refine Marks.unmarked_append.mpr ⟨Marks.unmarked_append.mpr ⟨last false, ?_⟩, last _⟩
  exact unmarked

theorem prettyRow_proper {indent : Units} (indented : ∀ unit ∈ indent, isIndent unit = true)
    (present : fields ≠ []) (unmarked : ∀ field ∈ fields, Unmarked backslash pipe false field) :
    (prettyRow indent fields).Proper := by
  have cells : (prettyRow indent fields).cells ≠ [] := by simpa [prettyRow] using present
  refine ⟨cells, indented, by simp [prettyRow], ?_, fun _ => ?_, nofun, nofun, nofun⟩
  · refine Marks.cut_iff.mpr ⟨?_, ?_⟩
    · intro piece member
      obtain ⟨field, among, rfl⟩ := List.mem_map.mp member
      exact unmarked_margin (unmarked field among)
    · intro piece member
      obtain ⟨field, -, rfl⟩ := List.mem_map.mp ((List.dropLast_sublist _).subset member)
      exact escapes_margin field
  · obtain ⟨front, last, same⟩ := (List.eq_nil_or_concat fields).resolve_left present
    rw [List.concat_eq_append] at same
    rw [Row.body, prettyRow, same, List.map_append, List.map_singleton,
      Marks.escapes_joined pipe_ne_backslash]
    exact escapes_margin last

theorem unmarked_cellText (start column : Nat) :
    Unmarked backslash pipe false (cellText (parseLine text start) column) ∧
      Trimmed (cellText (parseLine text start) column) ∧
      ∀ unit ∈ cellText (parseLine text start) column, unit ∈ text := by
  obtain ⟨row, proper, rfl⟩ := exists_row text
  rw [cellText_laid (parseLine row.text start) (by rw [proper.parseLine]) column]
  refine ⟨?_, trimmed_trim _, ?_⟩
  · cases found : row.cells[column]? with
    | none => exact Marks.unmarked_nil false
    | some cell =>
        have whole := (Marks.cut_iff.mp proper.cut).1 cell (List.mem_of_getElem? found)
        obtain ⟨front, back, same, before, -⟩ := exists_trim cell
        rw [same, Marks.unmarked_append, Marks.unmarked_append, escapes_blanks before] at whole
        exact whole.1.2
  · intro unit member
    cases found : row.cells[column]? with
    | none =>
        rw [found] at member
        cases member
    | some cell =>
        rw [found] at member
        exact Row.mem_text (List.mem_of_getElem? found) (mem_of_mem_trim member)

theorem lineFeed_notMem_pad (absent : lineFeed ∉ text) (width : Nat) (align : Align) :
    lineFeed ∉ pad text width align := by
  obtain ⟨left, right, same⟩ := exists_pad text width align
  rw [same]
  intro member
  rcases List.mem_append.mp member with front | back
  · rcases List.mem_append.mp front with filler | within
    · exact absurd (List.eq_of_mem_replicate filler) (by decide)
    · exact absent within
  · exact absurd (List.eq_of_mem_replicate back) (by decide)

/-- What a field of a pretty line is: its text or its rule, padded to the width. -/
structure Field (text field : Units) : Prop where
  unmarked : Unmarked backslash pipe false field
  unbroken : lineFeed ∉ field
  reads : trim (margin field) = text

theorem field_ruleText (align : Align) (width : Nat) :
    Field (ruleText align width) (ruleText align width) := by
  have absent {unit : UInt16} (apart : unit ≠ colon ∧ unit ≠ dash) :
      unit ∉ ruleText align width := by
    intro member
    rcases mem_ruleText member with same | same
    · exact apart.1 same
    · exact apart.2 same
  exact ⟨Marks.unmarked_of_not_mem (absent (by decide)) false, absent (by decide),
    trim_margin (trimmed_ruleText align width)⟩

theorem field_pad (unmarked : Unmarked backslash pipe false text) (unbroken : lineFeed ∉ text)
    (trimmed : Trimmed text) (width : Nat) (align : Align) : Field text (pad text width align) := by
  refine ⟨?_, lineFeed_notMem_pad unbroken width align, trim_margin_pad trimmed width align⟩
  obtain ⟨left, right, same⟩ := exists_pad text width align
  rw [same, Marks.unmarked_append, Marks.unmarked_append, escapes_blanks isBlank_replicate]
  exact ⟨⟨unmarked_blanks isBlank_replicate _, unmarked⟩, unmarked_blanks isBlank_replicate _⟩

/-- The text a pretty line is to hold in a column. -/
def tidyText (model : TableModel) (index : Nat) (line : TableLine) (column : Nat) : Units :=
  if index = 1 then ruleText (columnAlign model column) (columnWidth model column)
  else cellText line column

theorem field_fieldText (model : TableModel) (index : Nat) (unbroken : lineFeed ∉ text)
    (start column : Nat) :
    Field (tidyText model index (parseLine text start) column)
      (fieldText model index (parseLine text start) column) := by
  unfold tidyText fieldText
  split
  · exact field_ruleText ..
  · obtain ⟨unmarked, trimmed, within⟩ := @unmarked_cellText text start column
    exact field_pad unmarked (fun member => unbroken (within _ member)) trimmed _ _

/-- The row of a line made pretty. -/
def tidyRow (model : TableModel) (index : Nat) (line : TableLine) : Row :=
  prettyRow line.indent ((List.range (columnCount model)).map (fieldText model index line))

section
variable {model : TableModel} (wide : 0 < columnCount model)
include wide

theorem tidyRow_text (index : Nat) (line : TableLine) :
    (tidyRow model index line).text = prettyText model index line :=
  prettyRow_text line.indent (by simpa using Nat.ne_of_gt wide)

variable {text : Units}

section

variable (unbroken : lineFeed ∉ text)
include unbroken

theorem tidyRow_proper (index start : Nat) :
    (tidyRow model index (parseLine text start)).Proper := by
  apply prettyRow_proper
  · exact fun unit member => List.mem_takeWhile_imp member
  · simpa using Nat.ne_of_gt wide
  · intro field member
    obtain ⟨column, -, rfl⟩ := List.mem_map.mp member
    exact (field_fieldText model index unbroken start column).unmarked

theorem parseLine_prettyText (index start place : Nat) :
    parseLine (prettyText model index (parseLine text start)) place =
      { start := place
        text := prettyText model index (parseLine text start)
        indent := (parseLine text start).indent
        leadingPipe := true
        trailingPipe := true
        cells := laid (tidyRow model index (parseLine text start)).start
          (tidyRow model index (parseLine text start)).cells } := by
  have read := (tidyRow_proper wide unbroken index start).parseLine place
  rw [tidyRow_text wide] at read
  exact read

theorem length_cells_pretty (index start place : Nat) :
    (parseLine (prettyText model index (parseLine text start)) place).cells.length =
      columnCount model := by
  rw [parseLine_prettyText wide unbroken]
  simp [tidyRow, prettyRow]

variable {column : Nat}

theorem cell_pretty (index start place : Nat) (within : column < columnCount model) :
    ∃ cell, (parseLine (prettyText model index (parseLine text start)) place).cells[column]? =
        some cell ∧
      cell.raw = margin (fieldText model index (parseLine text start) column) := by
  have cells : (tidyRow model index (parseLine text start)).cells[column]? =
      some (margin (fieldText model index (parseLine text start) column)) := by
    simp only [tidyRow, prettyRow, List.map_map, List.getElem?_map, List.getElem?_range within,
      Option.map_some, Function.comp_apply]
  rw [← map_raw_laid (tidyRow model index (parseLine text start)).start
    (tidyRow model index (parseLine text start)).cells, List.getElem?_map] at cells
  obtain ⟨cell, standing, raw⟩ := Option.map_eq_some_iff.mp cells
  refine ⟨cell, ?_, raw⟩
  rw [parseLine_prettyText wide unbroken]
  exact standing

theorem cellText_pretty (index start place : Nat) (within : column < columnCount model) :
    cellText (parseLine (prettyText model index (parseLine text start)) place) column =
      tidyText model index (parseLine text start) column := by
  obtain ⟨cell, found, raw⟩ := cell_pretty wide unbroken index start place within
  rw [cellText, found, Option.map_some, Option.getD_some, raw]
  exact (field_fieldText model index unbroken start column).reads

theorem lineFeed_notMem_pretty (index start : Nat) :
    lineFeed ∉ prettyText model index (parseLine text start) := by
  rw [← tidyRow_text wide]
  intro member
  rcases Row.of_mem_text member with indent | same | ⟨cell, among, within⟩ | blank
  · have indented := List.mem_takeWhile_imp indent
    exact absurd indented (by decide)
  · exact absurd same (by decide)
  · obtain ⟨field, fields, rfl⟩ := List.mem_map.mp among
    obtain ⟨column, -, rfl⟩ := List.mem_map.mp fields
    have unbroken := (field_fieldText model index unbroken start column).unbroken
    simp only [margin, List.mem_append, List.mem_singleton] at within
    rcases within with (same | field) | same
    · exact absurd same (by decide)
    · exact unbroken field
    · exact absurd same (by decide)
  · cases blank

end

omit wide in
theorem isEmpty_trim_pretty (index : Nat) (line : TableLine) :
    (trim (prettyText model index line)).isEmpty = false := by
  have member : pipe ∈ units " |" := by decide
  exact isEmpty_trim_of_mem (List.mem_append_right _ member) not_isBlank_pipe

end

/-- What a pretty table has of the table it was made from. -/
structure Prettified (model pretty : TableModel) : Prop where
  length : pretty.lines.length = model.lines.length
  cells : ∀ line ∈ pretty.lines, line.cells.length = columnCount model
  texts : ∀ index line tidy, model.lines[index]? = some line →
    pretty.lines[index]? = some tidy → index ≠ 1 →
      ∀ column, cellText tidy column = cellText line column
  rule : ∀ delimiter, pretty.lines[1]? = some delimiter →
    ∀ column, column < columnCount model →
      cellText delimiter column = ruleText (columnAlign model column) (columnWidth model column)
  columns : pretty.columns = columnCount model
  aligns : ∀ column, column < model.columns → pretty.aligns[column]? = model.aligns[column]?
  pipes : ∃ places : List Nat, ∀ line ∈ pretty.lines,
    unescapedPipes line.text = places.map (line.indent.length + ·)

/-- The lines of a table made pretty. -/
def tidyLines (model : TableModel) (texts : List Units) : List Units :=
  texts.zipIdx.map fun item => prettyText model item.2 (parseLine item.1 0)

/-- The change of a line, in its own places. -/
def tidyChange (model : TableModel) (text : Units) (index : Nat) : Option SpanChange :=
  if prettyText model index (parseLine text 0) = text then none
  else some ⟨0, text.length, prettyText model index (parseLine text 0)⟩

theorem prettyChange_eq (model : TableModel) (text : Units) (place index : Nat) :
    prettyChange model (parseLine text place, index) =
      (tidyChange model text index).map (Splices.Splice.shift place) := by
  change (if prettyText model index (parseLine text 0) = text then none
    else some (Splices.Splice.mk place (place + text.length)
      (prettyText model index (parseLine text 0)))) = _
  unfold tidyChange
  split <;> rfl

theorem tidyChange_within {splice : SpanChange}
    (found : tidyChange model text index = some splice) :
    splice.Within text := by
  unfold tidyChange at found
  split at found
  · cases found
  · cases found
    exact ⟨Nat.zero_le _, Nat.le_refl _⟩

theorem edited_tidyChange (model : TableModel) (text : Units) (index : Nat) :
    Splices.Work.edited (text, tidyChange model text index) =
      prettyText model index (parseLine text 0) := by
  unfold tidyChange Splices.Work.edited
  split
  · rename_i none
    split at none
    · rename_i same
      exact same.symm
    · cases none
  · rename_i found
    split at found
    · cases found
    · cases found
      simp [Splices.Splice.apply]

theorem applied_prettify (model : TableModel) (lines : model.lines = linesFrom 0 texts)
    (separator : Units) :
    Splices.applied (prettify model separator) (joined lineFeed (texts ++ others)) =
      joined lineFeed (tidyLines model texts ++ others) := by
  rw [prettify, lines, applied_changes (prettyChange_eq model) fun _ _ _ => tidyChange_within,
    tidyLines]
  simp only [edited_tidyChange]

theorem length_tidyLines (model : TableModel) (texts : List Units) :
    (tidyLines model texts).length = texts.length := by
  rw [tidyLines, List.length_map, List.length_zipIdx]

theorem getElem?_tidyLines (model : TableModel) (texts : List Units) (index : Nat) :
    (tidyLines model texts)[index]? =
      texts[index]?.map fun text => prettyText model index (parseLine text 0) := by
  rw [tidyLines, List.getElem?_map, List.getElem?_zipIdx, Option.map_map, Nat.zero_add]
  rfl

variable {texts : List Units}

theorem exists_of_mem_tidyLines {tidy : Units} (member : tidy ∈ tidyLines model texts) :
    ∃ text ∈ texts, ∃ index, tidy = prettyText model index (parseLine text 0) := by
  obtain ⟨item, among, rfl⟩ := List.mem_map.mp member
  exact ⟨item.1, List.fst_mem_of_mem_zipIdx among, item.2, rfl⟩

theorem Laid.tidyLines (laid : Laid texts others) (wide : 0 < columnCount model) :
    Laid (tidyLines model texts) others := by
  constructor
  · intro text member
    rcases List.mem_append.mp member with tidy | other
    · obtain ⟨text, among, index, rfl⟩ := exists_of_mem_tidyLines tidy
      exact lineFeed_notMem_pretty wide (laid.unbroken text (List.mem_append_left _ among)) _ _
    · exact laid.unbroken text (List.mem_append_right _ other)
  · rw [length_tidyLines]
    exact laid.two
  · exact laid.blank
  · intro _ text found
    obtain ⟨text, -, index, rfl⟩ := exists_of_mem_tidyLines (List.mem_of_getLast? found)
    exact isEmpty_trim_pretty ..

theorem exists_tidy (model : TableModel) (texts : List Units) (index : Nat) :
    ∃ place, (linesFrom 0 (tidyLines model texts))[index]? =
      texts[index]?.map fun text =>
        parseLine (prettyText model index (parseLine text 0)) place := by
  obtain ⟨place, found⟩ := linesFrom_getElem? 0 index (tidyLines model texts)
  refine ⟨place, ?_⟩
  rw [found, getElem?_tidyLines, Option.map_map]
  rfl

theorem columnCount_pos (modeled : modelOf (linesFrom 0 texts) = some model) :
    0 < columnCount model := by
  obtain ⟨header, delimiter, rows, lines, -, columns, -, -⟩ := exists_of_modelOf modeled
  obtain ⟨text, -, place, rfl⟩ := exists_of_mem_linesFrom (lines ▸ List.mem_cons_self)
  have header := List.length_pos_iff.mpr (cells_ne_nil text place)
  rw [columnCount_eq]
  exact Nat.lt_of_lt_of_le (columns ▸ header) (le_greatest ..)

/-- The table made pretty. -/
def prettyModel (model : TableModel) (texts : List Units) : TableModel where
  lines := linesFrom 0 (tidyLines model texts)
  columns := columnCount model
  aligns := (List.range (columnCount model)).map (columnAlign model)

theorem modelOf_tidyLines (laid : Laid texts others) (wide : 0 < columnCount model) :
    modelOf (linesFrom 0 (tidyLines model texts)) = some (prettyModel model texts) := by
  obtain ⟨header, delimiter, rows, rfl⟩ : ∃ header delimiter rows,
      texts = header :: delimiter :: rows := by
    have two := laid.two
    match texts with
    | header :: delimiter :: rows => exact ⟨header, delimiter, rows, rfl⟩
  have unbroken (text : Units) (among : text ∈ header :: delimiter :: rows) : lineFeed ∉ text :=
    laid.unbroken text (List.mem_append_left _ among)
  have headerUnbroken := unbroken header List.mem_cons_self
  have ruleUnbroken := unbroken delimiter (List.mem_cons_of_mem _ List.mem_cons_self)
  have drawn (column : Nat) : fieldText model 1 (parseLine delimiter 0) column =
      ruleText (columnAlign model column) (columnWidth model column) := rfl
  have rule : ∀ place, ∀ cell ∈
      (parseLine (prettyText model 1 (parseLine delimiter 0)) place).cells,
        delimiterCell cell.raw = true := by
    intro place cell member
    obtain ⟨column, found⟩ := List.mem_iff_getElem?.mp member
    have within : column < columnCount model := by
      have bound := (List.getElem?_eq_some_iff.mp found).1
      rwa [length_cells_pretty wide ruleUnbroken] at bound
    obtain ⟨other, standing, raw⟩ := cell_pretty wide ruleUnbroken 1 0 place within
    obtain rfl := Option.some.inj (found.symm.trans standing)
    rw [raw, drawn]
    exact delimiterCell_rule ..
  have same : tidyLines model (header :: delimiter :: rows) =
      prettyText model 0 (parseLine header 0) ::
        prettyText model 1 (parseLine delimiter 0) ::
          (rows.zipIdx 2).map fun item => prettyText model item.2 (parseLine item.1 0) := rfl
  obtain ⟨place, modeled⟩ := modelOf_eq same rule
  rw [modeled, prettyModel]
  congr 2
  · exact length_cells_pretty wide headerUnbroken 0 0 0
  · rw [length_cells_pretty wide headerUnbroken]
    apply List.map_congr_left
    intro column member
    obtain ⟨cell, standing, raw⟩ :=
      cell_pretty wide ruleUnbroken 1 0 place (List.mem_range.mp member)
    rw [standing]
    exact alignOf_rule raw

theorem length_cells_le (member : line ∈ model.lines) : line.cells.length ≤ columnCount model :=
  size_le_greatest (fun line : TableLine => line.cells.length) model.columns member

theorem length_fieldText (found : model.lines[index]? = some line) (column : Nat) :
    (fieldText model index line column).length = columnWidth model column := by
  unfold fieldText
  split
  · exact length_ruleText (minRuleWidth_le model column)
  · rename_i row
    exact length_pad _ (length_cellText_le found row column)

/-- A column of spaces as wide as the column is with its margins. -/
def blankCells (model : TableModel) : List Units :=
  (List.range (columnCount model)).map fun column =>
    List.replicate (columnWidth model column + 2) space

/-- The places of the pipes of a pretty line behind its indent. -/
def pipePlaces (model : TableModel) : List Nat :=
  0 :: (seams 1 (blankCells model) ++ [1 + (joined pipe (blankCells model)).length])

theorem unescapedPipes_pretty (wide : 0 < columnCount model) (unbroken : lineFeed ∉ text)
    {index start : Nat} (found : model.lines[index]? = some (parseLine text start)) :
    unescapedPipes (prettyText model index (parseLine text start)) =
      (pipePlaces model).map ((leadingWhitespace text).length + ·) := by
  have lengths : (tidyRow model index (parseLine text start)).cells.map List.length =
      (blankCells model).map List.length := by
    simp only [tidyRow, prettyRow, blankCells, List.map_map]
    apply List.map_congr_left
    intro column _
    have length := length_fieldText found column
    simp only [Function.comp_apply, margin, List.length_append, List.length_singleton, length,
      List.length_replicate]
    omega
  have proper := tidyRow_proper wide unbroken index start
  rw [← tidyRow_text wide, proper.unescapedPipes, Row.body,
    Marks.length_joined_of_lengths pipe lengths, Row.start]
  change _ :: (seams ((leadingWhitespace text).length + 1) _ ++
    [(leadingWhitespace text).length + 1 + _]) = _
  rw [Marks.seams_of_lengths lengths]
  simp only [pipePlaces, List.map_cons, List.map_append, List.map_nil, Nat.add_zero, Nat.add_assoc]
  rfl

theorem exists_original (lines : model.lines = linesFrom 0 texts) {tidy : TableLine}
    (found : (prettyModel model texts).lines[index]? = some tidy) :
    ∃ text ∈ texts, ∃ place start, model.lines[index]? = some (parseLine text start) ∧
      tidy = parseLine (prettyText model index (parseLine text 0)) place := by
  obtain ⟨place, same⟩ := exists_tidy model texts index
  obtain ⟨start, original⟩ := linesFrom_getElem? 0 index texts
  obtain ⟨text, standing, rfl⟩ := Option.map_eq_some_iff.mp (same.symm.trans found)
  rw [standing] at original
  exact ⟨text, List.mem_of_getElem? standing, place, start, lines ▸ original, rfl⟩

theorem prettified (laid : Laid texts others) (modeled : modelOf (linesFrom 0 texts) = some model) :
    Prettified model (prettyModel model texts) := by
  have wide := columnCount_pos modeled
  obtain ⟨header, delimiter, rows, -, lines, columns, aligns, -⟩ := exists_of_modelOf modeled
  have unbroken (text : Units) (among : text ∈ texts) : lineFeed ∉ text :=
    laid.unbroken text (List.mem_append_left _ among)
  constructor
  · rw [prettyModel, length_linesFrom, length_tidyLines, lines, length_linesFrom]
  · intro tidy member
    obtain ⟨index, found⟩ := List.mem_iff_getElem?.mp member
    obtain ⟨text, among, place, start, -, rfl⟩ := exists_original lines found
    exact length_cells_pretty wide (unbroken text among) index 0 place
  · intro index line tidy original found row column
    obtain ⟨text, among, place, start, same, rfl⟩ := exists_original lines found
    obtain rfl := Option.some.inj (original.symm.trans same)
    rcases Nat.lt_or_ge column (columnCount model) with within | beyond
    · rw [cellText_pretty wide (unbroken text among) index 0 place within, tidyText, if_neg row]
      rfl
    · have short := Nat.le_trans (length_cells_le (List.mem_of_getElem? original)) beyond
      rw [cellText_of_le short, cellText_of_le]
      rwa [length_cells_pretty wide (unbroken text among)]
  · intro tidy found column within
    obtain ⟨text, among, place, start, -, rfl⟩ := exists_original lines found
    rw [cellText_pretty wide (unbroken text among) 1 0 place within, tidyText, if_pos rfl]
  · rfl
  · intro column within
    have count : column < columnCount model :=
      Nat.lt_of_lt_of_le within (le_greatest _ model.columns model.lines)
    have known : column < model.aligns.length := by
      rwa [aligns, List.length_map, List.length_range, ← columns]
    rw [prettyModel, List.getElem?_map, List.getElem?_range count, Option.map_some, columnAlign,
      List.getElem?_eq_getElem known]
    rfl
  · refine ⟨pipePlaces model, fun tidy member => ?_⟩
    obtain ⟨index, found⟩ := List.mem_iff_getElem?.mp member
    obtain ⟨text, among, place, start, original, rfl⟩ := exists_original lines found
    rw [parseLine_prettyText wide (unbroken text among)]
    have places := unescapedPipes_pretty wide (unbroken text among) original
    exact places

theorem Prettified.columnCount {model pretty : TableModel} (made : Prettified model pretty) :
    columnCount pretty = columnCount model := by
  rw [columnCount_eq, made.columns]
  exact greatest_of_le _ fun line member => Nat.le_of_eq (made.cells line member)

theorem columnAlign_prettyModel (model : TableModel) (texts : List Units)
    (within : column < columnCount model) :
    columnAlign (prettyModel model texts) column = columnAlign model column := by
  rw [columnAlign, prettyModel, List.getElem?_map, List.getElem?_range within]
  rfl

theorem columnWidth_prettyModel (lines : model.lines = linesFrom 0 texts)
    (made : Prettified model (prettyModel model texts)) (within : column < columnCount model) :
    columnWidth (prettyModel model texts) column = columnWidth model column := by
  have rooms : (prettyModel model texts).lines.zipIdx.map (roomFor column) =
      model.lines.zipIdx.map (roomFor column) := by
    apply List.ext_getElem?
    intro index
    rw [List.getElem?_map, List.getElem?_map, List.getElem?_zipIdx, List.getElem?_zipIdx]
    cases found : (prettyModel model texts).lines[index]? with
    | none =>
        rw [List.getElem?_eq_none_iff, made.length, ← List.getElem?_eq_none_iff] at found
        rw [found]
    | some tidy =>
        obtain ⟨text, -, place, start, original, -⟩ := exists_original lines found
        rw [original]
        simp only [Option.map_some, roomFor, Nat.zero_add]
        split
        · rfl
        · rename_i row
          rw [made.texts index _ tidy original found row]
  rw [columnWidth_eq, columnWidth_eq, columnAlign_prettyModel model texts within]
  have same (lines : List (TableLine × Nat)) (start : Nat) :
      greatest (roomFor column) start lines = greatest id start (lines.map (roomFor column)) :=
    (greatest_map id (roomFor column) start lines).symm
  rw [same, rooms, ← same]

theorem prettify_prettyModel (wide : 0 < columnCount model) (laid : Laid texts others)
    (lines : model.lines = linesFrom 0 texts) (made : Prettified model (prettyModel model texts))
    (separator : Units) : prettify (prettyModel model texts) separator = [] := by
  rw [prettify, List.filterMap_eq_nil_iff]
  rintro ⟨tidy, index⟩ member
  have found : (prettyModel model texts).lines[index]? = some tidy :=
    List.mem_zipIdx_iff_getElem?.mp member
  obtain ⟨text, among, place, start, original, same⟩ := exists_original lines found
  have unbroken : lineFeed ∉ text := laid.unbroken text (List.mem_append_left _ among)
  have read := parseLine_prettyText wide unbroken index 0 place
  have fields : ∀ column ∈ List.range (columnCount model),
      fieldText (prettyModel model texts) index tidy column =
        fieldText model index (parseLine text 0) column := by
    intro column member
    have within := List.mem_range.mp member
    unfold fieldText
    rw [columnAlign_prettyModel model texts within, columnWidth_prettyModel lines made within]
    split
    · rfl
    · rename_i row
      rw [made.texts index _ tidy original found row]
      rfl
  apply if_pos
  rw [prettyText, made.columnCount, List.map_congr_left fields, same, read]
  rfl

/-- A table made pretty is a table, with every text in its place, and stays as it is. -/
theorem prettify_moves_padding {span : Units} {model : TableModel}
    (accepted : parseTable span = some model) (separator : Units) :
    ∃ pretty, parseTable (Splices.applied (prettify model separator) span) = some pretty ∧
      Prettified model pretty ∧ prettify pretty separator = [] := by
  obtain ⟨texts, others, laid, rfl, modeled⟩ := exists_laid accepted
  have wide := columnCount_pos modeled
  obtain ⟨-, -, -, -, lines, -⟩ := exists_of_modelOf modeled
  have made := prettified laid modeled
  refine ⟨prettyModel model texts, ?_, made, prettify_prettyModel wide laid lines made separator⟩
  rw [applied_prettify model lines separator, (laid.tidyLines wide).parseTable]
  exact modelOf_tidyLines laid wide

/-- A table of a bare rule and a row that is short. -/
def bareSpan : Units := units "a|b\\|c\n-|-:\nx"

theorem prettify_moves_padding_bare :
    ∃ model pretty, parseTable bareSpan = some model ∧
      parseTable (Splices.applied (prettify model [lineFeed]) bareSpan) = some pretty ∧
      Prettified model pretty ∧ prettify pretty [lineFeed] = [] := by
  have accepted : (parseTable bareSpan).isSome = true := by decide
  obtain ⟨model, modeled⟩ := Option.isSome_iff_exists.mp accepted
  obtain ⟨pretty, read, made, stays⟩ := prettify_moves_padding modeled [lineFeed]
  exact ⟨model, pretty, modeled, read, made, stays⟩

/-- The rule is drawn anew, so its cells do not hold what they held. -/
theorem rule_is_redrawn :
    (parseTable (units "a\n-")).map grid = some [[units "a"], [units "-"]] ∧
      ((parseTable (units "a\n-")).bind fun model =>
        parseTable (Splices.applied (prettify model [lineFeed]) (units "a\n-"))).map grid =
          some [[units "a"], [units "---"]] := by
  decide

end Crystalline.Tables
