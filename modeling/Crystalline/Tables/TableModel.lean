import Crystalline.Tables.Splices
import Mathlib.Data.List.DropRight

/-!
# Table model

A markdown table read as lines of cells, each with its place in its line.  A text is a
string of UTF-16 units, as the editor's strings are, so that a length counts what the
editor counts.
-/

namespace Crystalline.Tables

/-- A string of UTF-16 units. -/
abbrev Units := List UInt16

/-- The units of a text whose characters are one unit each. -/
def units (text : String) : Units := text.toList.map fun char => UInt16.ofNat char.toNat

def pipe : UInt16 := 124
def backslash : UInt16 := 92
def lineFeed : UInt16 := 10
def space : UInt16 := 32
def tab : UInt16 := 9
def colon : UInt16 := 58
def dash : UInt16 := 45

/-- The units that `trim` takes away and `\s` matches: white space and line ends. -/
def isBlank (unit : UInt16) : Bool :=
  (9 ≤ unit && unit ≤ 13) || unit = 32 || unit = 0xA0 || unit = 0x1680 ||
    (0x2000 ≤ unit && unit ≤ 0x200A) || unit = 0x2028 || unit = 0x2029 || unit = 0x202F ||
    unit = 0x205F || unit = 0x3000 || unit = 0xFEFF

def trim (text : Units) : Units :=
  (text.dropWhile isBlank).rdropWhile isBlank

/-- `text.slice(from, to)`. -/
def slice (text : Units) (start stop : Nat) : Units :=
  (text.take stop).drop start

inductive Align where
  | left
  | center
  | right
  | none
  deriving DecidableEq, Repr

/-- A cell and its place in its line. -/
structure TableCell where
  raw : Units
  start : Nat
  stop : Nat
  deriving DecidableEq, Repr

structure TableLine where
  start : Nat
  text : Units
  indent : Units
  leadingPipe : Bool
  trailingPipe : Bool
  cells : List TableCell
  deriving DecidableEq, Repr

structure TableModel where
  lines : List TableLine
  columns : Nat
  aligns : List Align
  deriving DecidableEq, Repr

/-- A change in places of the parsed span. -/
abbrev SpanChange := Splices.Splice UInt16

/-- The places of the pipes that no backslash escapes. -/
def unescapedPipes (text : Units) : List Nat :=
  Marks.marksFrom backslash pipe 0 false text

def isIndent (unit : UInt16) : Bool := unit = space || unit = tab

def leadingWhitespace (text : Units) : Units :=
  text.takeWhile isIndent

/-- The scan back from `stop` over blanks, not past `floor`. -/
def trimmedEndFrom (text : Units) (floor : Nat) : Nat → Nat
  | 0 => 0
  | stop + 1 =>
      if floor < stop + 1 && (text[stop]?).any isBlank then trimmedEndFrom text floor stop
      else stop + 1

def trimmedEnd (text : Units) (floor : Nat) : Nat :=
  trimmedEndFrom text floor text.length

/-- The cells between the inner pipes, the last of them up to `last`. -/
def cellsFrom (text : Units) (last : Nat) (start : Nat) : List Nat → List TableCell
  | [] => [{ raw := slice text start last, start, stop := max start last }]
  | place :: inner =>
      { raw := slice text start place, start, stop := place } ::
        cellsFrom text last (place + 1) inner

def parseLine (text : Units) (start : Nat) : TableLine :=
  let indent := leadingWhitespace text
  let stop := trimmedEnd text indent.length
  let pipes := unescapedPipes text
  let leadingPipe := decide (pipes.head? = some indent.length)
  let trailingPipe :=
    decide (pipes.length > (if leadingPipe then 1 else 0)) &&
      decide (pipes.getLast?.map (· + 1) = some stop)
  let inner :=
    (pipes.take (if trailingPipe then pipes.length - 1 else pipes.length)).drop
      (if leadingPipe then 1 else 0)
  let first := if leadingPipe then pipes.headD 0 + 1 else indent.length
  let last := if trailingPipe then pipes.getLastD stop else stop
  { start, text, indent, leadingPipe, trailingPipe,
    cells := cellsFrom text last first inner }

/-- The trimmed text of a cell, nothing where the line is too short. -/
def cellText (line : TableLine) (column : Nat) : Units :=
  trim ((line.cells[column]?.map TableCell.raw).getD [])

/-- The text behind an optional colon. -/
def dropColon (text : Units) : Units :=
  if text.head? = some colon then text.drop 1 else text

/-- `/^\s*:?-+:?\s*$/`: blanks, a colon or none, dashes, a colon or none, blanks. -/
def delimiterCell (raw : Units) : Bool :=
  let dashes := dropColon (raw.dropWhile isBlank)
  let blanks := dropColon (dashes.dropWhile (· = dash))
  dashes.head? = some dash && blanks.all isBlank

def alignOf (cell : Option TableCell) : Align :=
  let raw := trim ((cell.map TableCell.raw).getD [])
  let opens := decide (raw.head? = some colon)
  let closes := decide (raw.getLast? = some colon) && decide (raw.length > 1)
  if opens && closes then .center
  else if opens then .left
  else if closes then .right
  else .none

def linesFrom (start : Nat) : List Units → List TableLine
  | [] => []
  | raw :: raws => parseLine raw start :: linesFrom (start + raw.length + 1) raws

/-- Blank lines at the end are no rows, past the first two lines. -/
def popBlank (lines : List TableLine) : List TableLine :=
  lines.take 2 ++ (lines.drop 2).rdropWhile fun line => (trim line.text).isEmpty

/-- The table of its lines, where the second of them is a rule. -/
def modelOf : List TableLine → Option TableModel
  | header :: delimiter :: rows =>
      if header.cells.isEmpty then none
      else if delimiter.cells.isEmpty then none
      else if !delimiter.cells.all (fun cell => delimiterCell cell.raw) then none
      else some {
        lines := header :: delimiter :: rows
        columns := header.cells.length
        aligns := (List.range header.cells.length).map fun column =>
          alignOf delimiter.cells[column]? }
  | _ => none

def parseTable (span : Units) : Option TableModel :=
  modelOf (popBlank (linesFrom 0 (span.splitOn lineFeed)))

/-- The trimmed texts of a line. -/
def texts (line : TableLine) : List Units :=
  line.cells.map fun cell => trim cell.raw

/-- The texts of a table, line by line. -/
def grid (model : TableModel) : List (List Units) :=
  model.lines.map texts

end Crystalline.Tables
