import Crystalline.Tables.Rows

/-!
# Spans

A span that is read as a table is its lines and blank lines behind them.  Changes that
stay within the lines, and leave them lines of a table, give a span with the changed
lines and the same blank ones.
-/

namespace Crystalline.Tables

open Marks (joined)

/-- Nothing to trim. -/
structure Trimmed (text : Units) : Prop where
  head : ∀ unit ∈ text.head?, isBlank unit = false
  last : ∀ unit ∈ text.getLast?, isBlank unit = false

theorem trim_between {front text back : Units} (trimmed : Trimmed text)
    (before : ∀ unit ∈ front, isBlank unit = true)
    (behind : ∀ unit ∈ back, isBlank unit = true) :
    trim (front ++ text ++ back) = text := by
  rw [trim, List.append_assoc, List.dropWhile_append_of_pos before]
  cases text with
  | nil =>
      have none : back.dropWhile isBlank = [] := List.dropWhile_eq_nil_iff.mpr behind
      rw [List.nil_append, none]
      rfl
  | cons unit text =>
      rw [List.cons_append, List.dropWhile_cons_of_neg (by rw [trimmed.head unit rfl]; decide),
        ← List.cons_append, Ends.rdropWhile_append behind, Ends.rdropWhile_eq_self trimmed.last]

theorem exists_trim (text : Units) :
    ∃ front back, text = front ++ trim text ++ back ∧
      (∀ unit ∈ front, isBlank unit = true) ∧ ∀ unit ∈ back, isBlank unit = true := by
  refine ⟨text.takeWhile isBlank, (text.dropWhile isBlank).rtakeWhile isBlank, ?_,
    fun unit member => List.mem_takeWhile_imp member,
    fun unit member => List.mem_rtakeWhile_imp member⟩
  rw [trim, List.append_assoc, List.rdropWhile_append_rtakeWhile, List.takeWhile_append_dropWhile]

theorem trimmed_trim (text : Units) : Trimmed (trim text) :=
  ⟨fun _ found => Ends.not_of_head?_rdropWhile found,
    fun _ found => Ends.not_of_getLast?_rdropWhile found⟩

variable {text : Units} {unit : UInt16} {texts others : List Units}
  {change : TableLine × Nat → Option SpanChange} {inLine : Units → Nat → Option SpanChange}

theorem mem_of_mem_trim (member : unit ∈ trim text) : unit ∈ text := by
  obtain ⟨front, back, same, -, -⟩ := exists_trim text
  rw [same]
  simp [member]

theorem isEmpty_trim_of_mem (member : unit ∈ text) (solid : isBlank unit = false) :
    (trim text).isEmpty = false := by
  obtain ⟨front, back, same, before, behind⟩ := exists_trim text
  rw [List.isEmpty_eq_false_iff]
  intro none
  rw [same, none, List.append_nil] at member
  rcases List.mem_append.mp member with first | last
  · rw [before unit first] at solid
    cases solid
  · rw [behind unit last] at solid
    cases solid

theorem not_isBlank_colon : isBlank colon = false := by decide
theorem not_isBlank_dash : isBlank dash = false := by decide
theorem isBlank_space : isBlank space = true := by decide

/-- A colon, where the rule has one. -/
def colonIf (present : Bool) : Units := if present then [colon] else []

theorem mem_colonIf {present : Bool} (member : unit ∈ colonIf present) : unit = colon := by
  cases present with
  | true => exact List.mem_singleton.mp member
  | false => cases member

/-- A run of dashes between optional colons. -/
def IsRule (text : Units) : Prop :=
  ∃ (opens closes : Bool) (count : Nat),
    text = colonIf opens ++ List.replicate (count + 1) dash ++ colonIf closes

theorem IsRule.solid (rule : IsRule text) : ∀ unit ∈ text, isBlank unit = false := by
  obtain ⟨opens, closes, count, rfl⟩ := rule
  intro unit member
  rcases List.mem_append.mp member with front | closing
  · rcases List.mem_append.mp front with opening | bar
    · rw [mem_colonIf opening]
      exact not_isBlank_colon
    · rw [List.eq_of_mem_replicate bar]
      exact not_isBlank_dash
  · rw [mem_colonIf closing]
    exact not_isBlank_colon

theorem trimmed_of_solid (solid : ∀ unit ∈ text, isBlank unit = false) : Trimmed text :=
  ⟨fun unit found => solid unit (List.mem_of_head? found),
    fun unit found => solid unit (List.mem_of_getLast? found)⟩

theorem exists_colonIf (text : Units) : ∃ present, text = colonIf present ++ dropColon text := by
  unfold dropColon
  split
  · rename_i opens
    obtain ⟨rest, same⟩ := List.head?_eq_some_iff.mp opens
    exact ⟨true, by rw [same]; rfl⟩
  · exact ⟨false, rfl⟩

theorem dropColon_colonIf (present : Bool) (other : text.head? ≠ some colon) :
    dropColon (colonIf present ++ text) = text := by
  cases present with
  | true => exact if_pos rfl
  | false => exact if_neg other

theorem exists_dashes (text : Units) :
    ∃ count, text = List.replicate count dash ++ text.dropWhile (· = dash) := by
  have all : ∀ unit ∈ text.takeWhile (· = dash), unit = dash := by
    intro unit member
    have held := List.mem_takeWhile_imp member
    exact of_decide_eq_true held
  refine ⟨(text.takeWhile (· = dash)).length, ?_⟩
  rw [← List.eq_replicate_of_mem all, List.takeWhile_append_dropWhile]

theorem dropWhile_dashes (count : Nat) (other : text.head? ≠ some dash) :
    (List.replicate count dash ++ text).dropWhile (· = dash) = text := by
  rw [List.dropWhile_append_of_pos fun unit member =>
    decide_eq_true (List.eq_of_mem_replicate member)]
  cases text with
  | nil => rfl
  | cons unit text =>
      apply List.dropWhile_cons_of_neg
      intro same
      exact other (congrArg some (of_decide_eq_true same))

/-- A cell of the rule is a rule but for blanks. -/
theorem delimiterCell_iff {raw : Units} : delimiterCell raw = true ↔ IsRule (trim raw) := by
  constructor
  · intro accepted
    obtain ⟨first, blank⟩ := Bool.and_eq_true_iff.mp accepted
    obtain ⟨opens, opened⟩ := exists_colonIf (raw.dropWhile isBlank)
    generalize dropColon (raw.dropWhile isBlank) = dashes at first blank opened
    obtain ⟨count, dashed⟩ := exists_dashes dashes
    obtain ⟨closes, closed⟩ := exists_colonIf (dashes.dropWhile (· = dash))
    generalize dropColon (dashes.dropWhile (· = dash)) = blanks at blank closed
    cases count with
    | zero =>
        have stops := List.head?_dropWhile_not (· = dash) dashes
        have none : dashes.dropWhile (· = dash) = dashes := dashed.symm
        rw [none, of_decide_eq_true first] at stops
        exact absurd stops (by decide)
    | succ count =>
        have rule : IsRule (colonIf opens ++ List.replicate (count + 1) dash ++
          colonIf closes) := ⟨opens, closes, count, rfl⟩
        rw [closed] at dashed
        rw [trim, opened, dashed, ← List.append_assoc, ← List.append_assoc,
          Ends.rdropWhile_append (List.all_eq_true.mp blank),
          Ends.rdropWhile_eq_self (trimmed_of_solid rule.solid).last]
        exact rule
  · intro rule
    obtain ⟨front, back, same, before, behind⟩ := exists_trim raw
    have solid := rule.solid
    obtain ⟨opens, closes, count, rule⟩ := rule
    have notDash : back.head? ≠ some dash := by
      intro found
      have blank := behind dash (List.mem_of_head? found)
      rw [not_isBlank_dash] at blank
      cases blank
    have notColon : back.head? ≠ some colon := by
      intro found
      have blank := behind colon (List.mem_of_head? found)
      rw [not_isBlank_colon] at blank
      cases blank
    have closesOther : (colonIf closes ++ back).head? ≠ some dash := by
      cases closes with
      | true => exact fun found => by cases found
      | false => exact notDash
    have dashed : (List.replicate (count + 1) dash ++ (colonIf closes ++ back)).head? =
        some dash := rfl
    have start : raw.dropWhile isBlank =
        colonIf opens ++ (List.replicate (count + 1) dash ++ (colonIf closes ++ back)) := by
      have parted : trim raw ++ back =
          colonIf opens ++ (List.replicate (count + 1) dash ++ (colonIf closes ++ back)) := by
        rw [rule]
        simp only [List.append_assoc]
      have present : trim raw ≠ [] := by
        rw [rule]
        simp
      obtain ⟨unit, rest, found⟩ := List.exists_cons_of_ne_nil present
      have head : isBlank unit = false := solid unit (by rw [found]; exact List.mem_cons_self)
      rw [← parted]
      calc raw.dropWhile isBlank = (front ++ (trim raw ++ back)).dropWhile isBlank := by
            rw [← List.append_assoc, ← same]
        _ = (trim raw ++ back).dropWhile isBlank := List.dropWhile_append_of_pos before
        _ = trim raw ++ back := by
            rw [found]
            exact List.dropWhile_cons_of_neg (by rw [head]; decide)
    rw [delimiterCell, start, dropColon_colonIf opens (by rw [dashed]; decide),
      dropWhile_dashes _ closesOther, dropColon_colonIf closes notColon, dashed,
      List.all_eq_true.mpr behind]
    rfl

@[simp] theorem map_text_linesFrom (start : Nat) (texts : List Units) :
    (linesFrom start texts).map TableLine.text = texts := by
  induction texts generalizing start with
  | nil => rfl
  | cons text texts induction =>
      rw [linesFrom, List.map_cons, induction]
      rfl

@[simp] theorem length_linesFrom (start : Nat) (texts : List Units) :
    (linesFrom start texts).length = texts.length := by
  rw [← List.length_map TableLine.text, map_text_linesFrom]

theorem exists_linesFrom_append (start : Nat) (front back : List Units) :
    ∃ later, linesFrom start (front ++ back) = linesFrom start front ++ linesFrom later back := by
  induction front generalizing start with
  | nil => exact ⟨start, rfl⟩
  | cons text front induction =>
      obtain ⟨later, same⟩ := induction (start + text.length + 1)
      exact ⟨later, by rw [List.cons_append, linesFrom, same]; rfl⟩

variable {texts : List Units} {lines : List TableLine} {model : TableModel}

theorem exists_of_mem_linesFrom {start : Nat} {line : TableLine}
    (member : line ∈ linesFrom start texts) :
    ∃ text ∈ texts, ∃ place, line = parseLine text place := by
  induction texts generalizing start with
  | nil => cases member
  | cons text texts induction =>
      rcases List.mem_cons.mp member with rfl | later
      · exact ⟨text, List.mem_cons_self, start, rfl⟩
      · obtain ⟨other, among, place, same⟩ := induction later
        exact ⟨other, List.mem_cons_of_mem _ among, place, same⟩

theorem linesFrom_getElem? (start index : Nat) (texts : List Units) :
    ∃ place, (linesFrom start texts)[index]? = texts[index]?.map (parseLine · place) := by
  induction texts generalizing start index with
  | nil => exact ⟨0, rfl⟩
  | cons text texts induction =>
      cases index with
      | zero => exact ⟨start, rfl⟩
      | succ index => exact induction _ index

/-- The lines of a table, and the blank ones behind them. -/
structure Laid (texts others : List Units) : Prop where
  unbroken : ∀ text ∈ texts ++ others, lineFeed ∉ text
  two : 2 ≤ texts.length
  blank : ∀ text ∈ others, (trim text).isEmpty = true
  ends : 2 < texts.length → ∀ text ∈ texts.getLast?, (trim text).isEmpty = false

theorem Laid.popBlank (laid : Laid texts others) :
    popBlank (linesFrom 0 (texts ++ others)) = linesFrom 0 texts := by
  obtain ⟨later, same⟩ := exists_linesFrom_append 0 texts others
  have two : 2 ≤ (linesFrom 0 texts).length := by
    rw [length_linesFrom]
    exact laid.two
  have blank : ∀ line ∈ linesFrom later others, (trim line.text).isEmpty = true := by
    intro line member
    have among : line.text ∈ (linesFrom later others).map TableLine.text :=
      List.mem_map_of_mem member
    rw [map_text_linesFrom] at among
    exact laid.blank line.text among
  have last : ∀ line ∈ ((linesFrom 0 texts).drop 2).getLast?,
      (trim line.text).isEmpty = false := by
    intro line found
    rw [List.getLast?_drop] at found
    split at found
    · cases found
    · rename_i many
      rw [length_linesFrom] at many
      apply laid.ends (by omega) line.text
      rw [← map_text_linesFrom 0 texts, List.getLast?_map, found]
      rfl
  rw [same, Tables.popBlank, List.take_append_of_le_length two,
    List.drop_append_of_le_length two, Ends.rdropWhile_append blank, Ends.rdropWhile_eq_self last,
    List.take_append_drop]

theorem Laid.parseTable (laid : Laid texts others) :
    parseTable (joined lineFeed (texts ++ others)) = modelOf (linesFrom 0 texts) := by
  have nonempty : texts ++ others ≠ [] := by
    have := laid.two
    intro none
    rw [(List.append_eq_nil_iff.mp none).1] at this
    simp at this
  rw [Tables.parseTable, joined, List.splitOn_intercalate lineFeed laid.unbroken nonempty,
    laid.popBlank]

theorem exists_popped (lines : List TableLine) :
    ∃ popped, lines = popBlank lines ++ popped ∧
      ∀ line ∈ popped, (trim line.text).isEmpty = true := by
  refine ⟨(lines.drop 2).rtakeWhile fun line => (trim line.text).isEmpty, ?_, ?_⟩
  · rw [popBlank, List.append_assoc, List.rdropWhile_append_rtakeWhile, List.take_append_drop]
  · intro line member
    have held := List.mem_rtakeWhile_imp member
    exact held

theorem not_blank_of_popBlank {line : TableLine} (many : 2 < (popBlank lines).length)
    (last : line ∈ (popBlank lines).getLast?) : (trim line.text).isEmpty = false := by
  rw [popBlank, List.length_append, List.length_take] at many
  rw [popBlank, List.getLast?_append] at last
  cases kept : ((lines.drop 2).rdropWhile fun line => (trim line.text).isEmpty).getLast? with
  | none =>
      rw [List.getLast?_eq_none_iff.mp kept, List.length_nil] at many
      omega
  | some other =>
      rw [kept] at last
      cases last
      have held := Ends.not_of_getLast?_rdropWhile kept
      exact held

theorem exists_of_modelOf (accepted : modelOf lines = some model) :
    ∃ header delimiter rows, lines = header :: delimiter :: rows ∧ model.lines = lines ∧
      model.columns = header.cells.length ∧
      model.aligns = (List.range header.cells.length).map (fun column =>
        alignOf delimiter.cells[column]?) ∧
      ∀ cell ∈ delimiter.cells, delimiterCell cell.raw = true := by
  unfold modelOf at accepted
  split at accepted
  · rename_i header delimiter rows
    split at accepted
    · cases accepted
    · split at accepted
      · cases accepted
      · split at accepted
        · cases accepted
        · rename_i rule
          cases accepted
          refine ⟨header, delimiter, rows, rfl, rfl, rfl, rfl, ?_⟩
          simpa using rule
  · cases accepted

theorem cells_ne_nil (text : Units) (start : Nat) : (parseLine text start).cells ≠ [] := by
  obtain ⟨row, proper, rfl⟩ := exists_row text
  rw [proper.parseLine]
  intro none
  have none : laid row.start row.cells = [] := none
  have length := length_laid row.start row.cells
  rw [none] at length
  exact proper.nonempty (List.length_eq_zero_iff.mp length.symm)

theorem modelOf_eq {header delimiter : Units} {rows : List Units}
    (same : texts = header :: delimiter :: rows)
    (rule : ∀ place, ∀ cell ∈ (parseLine delimiter place).cells,
      delimiterCell cell.raw = true) :
    ∃ place, modelOf (linesFrom 0 texts) = some {
      lines := linesFrom 0 texts
      columns := (parseLine header 0).cells.length
      aligns := (List.range (parseLine header 0).cells.length).map fun column =>
        alignOf (parseLine delimiter place).cells[column]? } := by
  refine ⟨0 + header.length + 1, ?_⟩
  rw [same, linesFrom, linesFrom, modelOf]
  have present (text : Units) (place : Nat) : (parseLine text place).cells.isEmpty = false :=
    List.isEmpty_eq_false_iff.mpr (cells_ne_nil text place)
  have all := List.all_eq_true.mpr (rule (0 + header.length + 1))
  simp only [present, all]
  rfl

/-- A span read as a table is laid out in lines. -/
theorem exists_laid {span : Units} (accepted : parseTable span = some model) :
    ∃ texts others, Laid texts others ∧ span = joined lineFeed (texts ++ others) ∧
      modelOf (linesFrom 0 texts) = some model := by
  rw [parseTable] at accepted
  obtain ⟨popped, parted, blank⟩ := exists_popped (linesFrom 0 (span.splitOn lineFeed))
  have ends {line : TableLine} := @not_blank_of_popBlank
    (linesFrom 0 (span.splitOn lineFeed)) line
  generalize popBlank (linesFrom 0 (span.splitOn lineFeed)) = kept at accepted parted ends
  have raws := map_text_linesFrom 0 (span.splitOn lineFeed)
  rw [parted, List.map_append] at raws
  obtain ⟨later, same⟩ := exists_linesFrom_append 0 (kept.map TableLine.text)
    (popped.map TableLine.text)
  have lines : linesFrom 0 (kept.map TableLine.text) = kept := by
    rw [raws, parted] at same
    exact (List.append_inj_left same (by rw [length_linesFrom, List.length_map])).symm
  refine ⟨kept.map TableLine.text, popped.map TableLine.text, ⟨?_, ?_, ?_, ?_⟩, ?_, ?_⟩
  · rw [raws]
    exact fun text member => Ends.not_mem_of_mem_splitOn member
  · obtain ⟨first, second, rows, same, -⟩ := exists_of_modelOf accepted
    rw [same]
    simp
  · intro text member
    obtain ⟨line, among, rfl⟩ := List.mem_map.mp member
    exact blank line among
  · intro many text found
    rw [List.length_map] at many
    rw [List.getLast?_map] at found
    obtain ⟨line, last, rfl⟩ := Option.map_eq_some_iff.mp found
    exact ends many last
  · rw [raws, joined, List.intercalate_splitOn]
  · rw [lines]
    exact accepted

section

variable
  (changes : ∀ text place index, change (parseLine text place, index) = (inLine text index).map (Splices.Splice.shift place))
include changes

theorem filterMap_linesFrom (start index : Nat) (texts : List Units) :
    ((linesFrom start texts).zipIdx index).filterMap change =
      Splices.spread start
        ((texts.zipIdx index).map fun item => (item.1, inLine item.1 item.2)) := by
  induction texts generalizing start index with
  | nil => rfl
  | cons text texts induction =>
      rw [linesFrom, List.zipIdx_cons, List.filterMap_cons, changes, List.zipIdx_cons,
        List.map_cons, Splices.spread, induction]
      cases inLine text index <;> rfl

/-- The span after changes within its lines. -/
theorem applied_changes
    (within : ∀ text index splice, inLine text index = some splice → splice.Within text)
    (texts others : List Units) :
    Splices.applied (((linesFrom 0 texts).zipIdx).filterMap change)
        (joined lineFeed (texts ++ others)) =
      joined lineFeed ((texts.zipIdx.map fun item =>
        Splices.Work.edited (item.1, inLine item.1 item.2)) ++ others) := by
  rw [filterMap_linesFrom changes]
  have inWork : ∀ work ∈ texts.zipIdx.map fun item => (item.1, inLine item.1 item.2),
      ∀ splice, work.2 = some splice → splice.Within work.1 := by
    intro work member splice found
    obtain ⟨item, -, rfl⟩ := List.mem_map.mp member
    exact within item.1 item.2 splice found
  have spread := Splices.applied_spread lineFeed inWork [] others
  rw [List.map_map, List.map_map] at spread
  have same : texts.zipIdx.map (Prod.fst ∘ fun item =>
      (item.1, inLine item.1 item.2)) = texts := List.zipIdx_map_fst 0 texts
  rw [same] at spread
  exact spread

end

end Crystalline.Tables
