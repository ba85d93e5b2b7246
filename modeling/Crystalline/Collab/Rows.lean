import Crystalline.Text.Bytes
import Crystalline.Text.Trim

/-!
# Table rows of a text

Which lines of a text are rows of a table, for a merge that weighs the cells of a row.
A line in fenced code is never a row, and neither is one that starts another block.
-/

namespace Crystalline.Collab

open Text

/-- How many of a character a text starts with. -/
def runOf (char : Char) (text : Text) : Nat := (text.takeWhile (· = char)).length

/-- The loop of `split_cells`; `escaped` when a backslash stands before the text. -/
def splitCellsFrom : (escaped : Bool) → Text → List Text
  | _, [] => [[]]
  | escaped, char :: text =>
      if char = '|' && !escaped then [] :: splitCellsFrom false text
      else
        match splitCellsFrom (char = '\\') text with
        | [] => [[char]]
        | cell :: cells => (char :: cell) :: cells

/-- A text cut at every pipe without a backslash before it. -/
def splitCells (text : Text) : List Text := splitCellsFrom false text

def hasUnescapedPipe (text : Text) : Bool := 1 < (splitCells text).length

/-- The cells of a trimmed row, without the pieces outside its edge pipes. -/
def cells (trimmed : Text) : List Text :=
  let parts := splitCells trimmed
  let parts := if startsWith trimmed ['|'] then parts.tail else parts
  if 1 < parts.length && endsWith trimmed ['|'] && !endsWith trimmed ['\\', '|'] then
    parts.dropLast
  else parts

def isDelimiterCell (cell : Text) : Bool :=
  let cell := trim cell
  let cell := (stripPrefix [':'] cell).getD cell
  let cell := (stripSuffix [':'] cell).getD cell
  !cell.isEmpty && cell.all (· = '-')

/-- Whether a trimmed line is the delimiter row of a table. -/
def isDelimiter (trimmed : Text) : Bool :=
  hasUnescapedPipe trimmed && !(cells trimmed).isEmpty && (cells trimmed).all isDelimiterCell

/-- Whether a trimmed line has a blank, or nothing, at a place. -/
def spacedAt (trimmed : Text) (place : Nat) : Bool :=
  match trimmed[place]? with
  | none => true
  | some char => char = ' ' || char = '\t'

/-- Whether a trimmed line starts a block other than a table. -/
def startsABlock (trimmed : Text) : Bool :=
  match trimmed.head? with
  | none => false
  | some first =>
      if first = '>' || first = '<' then true
      else if first = '#' then
        runOf '#' trimmed ≤ 6 && spacedAt trimmed (runOf '#' trimmed)
      else if first = '-' || first = '*' || first = '+' then spacedAt trimmed 1
      else if isAsciiDigit first then
        let digits := (trimmed.takeWhile isAsciiDigit).length
        digits ≤ 9 && (trimmed[digits]? = some '.' || trimmed[digits]? = some ')') &&
          spacedAt trimmed (digits + 1)
      else false

def rowShaped (text : Text) : Bool :=
  !(startsWith text "    ".toList || startsWith text ['\t']) && hasUnescapedPipe (trim text) &&
    !startsABlock (trim text)

/-- Whether the indent of a line lets it open or close a fence. -/
def indentAllowsFence (line : Text) : Bool :=
  let lead := line.takeWhile isWhitespace
  !lead.contains '\t' && byteLen lead < 4

/-- An open fence: its character and how many of it opened the fence. -/
structure Fence where
  char : Char
  len : Nat
  deriving DecidableEq

/-- The fence a trimmed line opens. -/
def Fence.opens (trimmed : Text) : Option Fence :=
  match trimmed.head? with
  | none => none
  | some char =>
      if char = '\x60' || char = '~' then
        let len := runOf char trimmed
        let info := trimmed.drop len
        if 3 ≤ len && !(char = '\x60' && info.contains '\x60') then some ⟨char, len⟩ else none
      else none

/-- Whether a trimmed line closes a fence. -/
def Fence.closes (fence : Fence) (trimmed : Text) : Bool :=
  fence.len ≤ runOf fence.char trimmed && runOf fence.char trimmed = byteLen trimmed

/-- What a line is to the merge of cells. -/
inductive Row where
  | data
  | delimiter
  | other
  deriving DecidableEq

/-- A line without its line feed. -/
def lineText (raw : Text) : Text := trimEndMatches (· == '\n') raw

/-- Whether a trimmed line and the line after it open a table. -/
def opensTable (trimmed : Text) (next : Option Text) : Bool :=
  match next with
  | none => false
  | some raw =>
      let next := lineText raw
      rowShaped next && isDelimiter (trim next) &&
        (cells (trim next)).length = (cells trimmed).length

/-- The loop of `table_rows`: each line's kind, and whether it was taken for a fence marker
or for fenced content. -/
def walkRows (fence : Option Fence) (inTable : Bool) : List Text → List (Row × Bool)
  | [] => []
  | raw :: lines =>
      let text := lineText raw
      let trimmed := trim text
      match fence with
      | some opened =>
          let fence := if indentAllowsFence text && opened.closes trimmed then none else fence
          (.other, true) :: walkRows fence inTable lines
      | none =>
          match (Fence.opens trimmed).filter fun _ => indentAllowsFence text with
          | some opened => (.other, true) :: walkRows (some opened) false lines
          | none =>
              if !rowShaped text then (.other, false) :: walkRows none false lines
              else
                let inTable := inTable || opensTable trimmed lines.head?
                let kind := if !inTable then .other
                  else if isDelimiter trimmed then .delimiter
                  else .data
                (kind, false) :: walkRows none inTable lines

def tableRows (lines : List Text) : List Row := (walkRows none false lines).map Prod.fst

/-- Which lines `table_rows` takes for fence markers or fenced content. -/
def fencedRows (lines : List Text) : List Bool := (walkRows none false lines).map Prod.snd

end Crystalline.Collab
