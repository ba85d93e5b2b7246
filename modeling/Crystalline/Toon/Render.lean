import Mathlib.Data.Char
import Mathlib.Data.List.Lex
import Mathlib.Data.List.Sort
import Crystalline.Text.Basic

/-!
# TOON rendering

List-shaped results are printed as indented lines: `key: value`, a `key:` block for
an object, one line for an array of scalars, a table for like-keyed rows and a
hyphenated list for everything else.  A pass before makes rows uniform.
-/

namespace Crystalline.Toon

open Text

/-- A JSON value; an object's entries stand in the order of their keys. -/
inductive Value (Number : Type) where
  | null
  | bool (flag : Bool)
  | number (number : Number)
  | string (text : Text)
  | array (items : List (Value Number))
  | object (fields : List (Text × Value Number))

variable {Number : Type}

/-- `Map<String, Value>`. -/
abbrev Fields (Number : Type) := List (Text × Value Number)

def withoutSign : Text → Text
  | '+' :: rest | '-' :: rest => rest
  | text => text

/-- `Exp?` of a number, and nothing after it. -/
def isExponent : Text → Bool
  | [] => true
  | 'e' :: rest | 'E' :: rest => withoutSign rest ≠ [] && (withoutSign rest).all isAsciiDigit
  | _ => false

/-- The digits behind a point, and what follows them. -/
def fractionOf : Text → Text × Text
  | '.' :: rest => (rest.takeWhile isAsciiDigit, rest.dropWhile isAsciiDigit)
  | text => ([], text)

/-- `parse::<f64>().is_ok()`. -/
def parsesAsF64 (text : Text) : Bool :=
  let unsigned := withoutSign text
  let whole := unsigned.takeWhile isAsciiDigit
  let (fraction, rest) := fractionOf (unsigned.dropWhile isAsciiDigit)
  ["inf".toList, "infinity".toList, "nan".toList].contains (unsigned.map Char.toLower) ||
    ((whole ≠ [] || fraction ≠ []) && isExponent rest)

/-- The characters that force quotes wherever they stand. -/
def structural : List Char := [',', ':', '"', '\\', '[', ']', '\x7b', '\x7d', '\n', '\r', '\t']

/-- `needs_quoting`. -/
def needsQuoting (text : Text) : Bool :=
  text = [] || text.head?.any isWhitespace || text.getLast?.any isWhitespace ||
    ["true".toList, "false".toList, "null".toList].contains text ||
    startsWith text "-".toList || parsesAsF64 text || text.any (structural.contains ·)

def escapeChar : Char → Text
  | '\\' => "\\\\".toList
  | '"' => "\\\"".toList
  | '\n' => "\\n".toList
  | '\r' => "\\r".toList
  | '\t' => "\\t".toList
  | other => [other]

/-- `escape`. -/
def escape (text : Text) : Text := text.flatMap escapeChar

/-- `string_token`. -/
def stringToken (text : Text) : Text :=
  if needsQuoting text then '"' :: escape text ++ "\"".toList else text

/-- How numbers are printed: each in its own way, as a number and with nothing a
line could take for its own. -/
structure NumberPrinting (Number : Type) where
  print : Number → Text
  injective : Function.Injective print
  parses : ∀ number, parsesAsF64 (print number) = true
  plain : ∀ number, ∀ char ∈ print number, char ∉ structural

variable (numbers : NumberPrinting Number)

/-- `scalar_token`, of a scalar. -/
def scalarToken : Value Number → Text
  | .null => "null".toList
  | .bool true => "true".toList
  | .bool false => "false".toList
  | .number number => numbers.print number
  | .string text => stringToken text
  | .array _ | .object _ => []

/-- `is_scalar`. -/
def isScalar : Value Number → Bool
  | .null | .bool _ | .number _ | .string _ => true
  | .array _ | .object _ => false

/-- `as_object`. -/
def asObject : Value Number → Option (Fields Number)
  | .object fields => some fields
  | _ => none

/-- `" ".repeat(indent)`. -/
def pad (indent : Nat) : Text := List.replicate indent ' '

def decimal (count : Nat) : Text := Nat.toDigits 10 count

/-- Cells with commas between. -/
def joinCells (cells : List Text) : Text := [','].intercalate cells

/-- What an array's header holds between the brackets. -/
def bracketed (count : Nat) : Text := '[' :: decimal count ++ "]".toList

/-- One row of a table is this many scalars under these names. -/
def isRow (names : List Text) (item : Value Number) : Bool :=
  match asObject item with
  | none => false
  | some fields => fields.map Prod.fst = names && fields.all fun field => isScalar field.2

/-- `is_tabular`. -/
def isTabular (items : List (Value Number)) : Option (List Text) := do
  let first ← items.head?
  let fields ← asObject first
  if items.all (isRow (fields.map Prod.fst)) then some (fields.map Prod.fst) else none

/-- The cells of a row. -/
def rowCells (item : Value Number) : List Text :=
  ((asObject item).getD []).map fun field => scalarToken numbers field.2

/-- `fold_hyphen`, on the lines of one item. -/
def foldHyphen (indent : Nat) : List Text → List Text
  | [] => []
  | line :: lines => (pad indent ++ "- ".toList ++ line.drop (indent + 2)) :: lines

mutual

/-- `emit_object`. -/
def emitObject (indent : Nat) : Fields Number → List Text
  | [] => []
  | (key, value) :: fields => emitEntry indent key value ++ emitObject indent fields

/-- `emit_entry`. -/
def emitEntry (indent : Nat) (key : Text) : Value Number → List Text
  | .object fields => (pad indent ++ stringToken key ++ ":".toList) :: emitObject (indent + 2) fields
  | .array items => emitArray indent (stringToken key) items
  | scalar => [pad indent ++ stringToken key ++ ": ".toList ++ scalarToken numbers scalar]

/-- `emit_array`. -/
def emitArray (indent : Nat) (keyToken : Text) : List (Value Number) → List Text
  | [] => [pad indent ++ keyToken ++ "[0]:".toList]
  | first :: rest =>
    let items := first :: rest
    let header := pad indent ++ keyToken ++ bracketed items.length
    if items.all isScalar then
      [header ++ ": ".toList ++ joinCells (items.map (scalarToken numbers))]
    else match isTabular items with
      | some names =>
        (header ++ '\x7b' :: joinCells (names.map stringToken) ++ "\x7d:".toList) ::
          items.map fun item => pad (indent + 2) ++ joinCells (rowCells numbers item)
      | none =>
        (header ++ ":".toList) ::
          (emitListItem (indent + 2) first ++ emitListItems (indent + 2) rest)

/-- The items of an expanded list. -/
def emitListItems (indent : Nat) : List (Value Number) → List Text
  | [] => []
  | item :: items => emitListItem indent item ++ emitListItems indent items

/-- `emit_list_item`. -/
def emitListItem (indent : Nat) : Value Number → List Text
  | .object fields =>
      if fields.isEmpty then [pad indent ++ "-".toList]
      else foldHyphen indent (emitObject (indent + 2) fields)
  | .array items => foldHyphen indent (emitArray (indent + 2) [] items)
  | scalar => [pad indent ++ "- ".toList ++ scalarToken numbers scalar]

end

/-- A string without a comma. -/
def commaFree : Value Number → Option Text
  | .string text => if ',' ∈ text then none else some text
  | _ => none

/-- `join_string_array`. -/
def joinStringArray : Value Number → Value Number
  | .array items =>
    match items.mapM commaFree with
    | some texts => .string (joinCells texts)
    | none => .array items
  | value => value

/-- The keys of any of the rows, in order. -/
def rowKeys (rows : List (Value Number)) : List Text :=
  (rows.flatMap fun row => ((asObject row).getD []).map Prod.fst).dedup.insertionSort (· ≤ ·)

/-- A row with all the keys. -/
def fillRow (keys : List Text) : Value Number → Value Number
  | .object fields =>
      .object (keys.map fun key => (key, joinStringArray ((fields.lookup key).getD .null)))
  | other => other

/-- `fill_rows`. -/
def fillRows (rows : List (Value Number)) : List (Value Number) :=
  rows.map (fillRow (rowKeys rows))

def isObject (value : Value Number) : Bool := (asObject value).isSome

mutual

/-- `normalize`. -/
def normalize : Value Number → Value Number
  | .array items =>
    let items := normalizeItems items
    if !items.isEmpty && items.all isObject then .array (fillRows items) else .array items
  | .object fields => .object (normalizeFields fields)
  | other => other

def normalizeItems : List (Value Number) → List (Value Number)
  | [] => []
  | item :: items => normalize item :: normalizeItems items

def normalizeFields : Fields Number → Fields Number
  | [] => []
  | (key, value) :: fields => (key, normalize value) :: normalizeFields fields

end

/-- `lines.join("\n")`. -/
def joinLines (lines : List Text) : Text := ['\n'].intercalate lines

/-- `render`, with the compact JSON a root that is no object is answered with. -/
def render (compact : Value Number → Text) (value : Value Number) : Text :=
  match normalize value with
  | .object fields => joinLines (emitObject numbers 0 fields)
  | _ => compact value

end Crystalline.Toon
