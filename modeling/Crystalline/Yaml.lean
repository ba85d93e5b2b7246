import Crystalline.Text.Lines

/-!
# The YAML library

The YAML reader and printer are code of their own, so they are parameters.
`Value` stands for the library's values up to its `==`: two mappings with the
same entries in another order are one value.
-/

namespace Crystalline

/-- What the crate uses of the YAML library. -/
structure Yaml (Value : Type) where
  /-- `from_str::<Value>`: the document's value, or `none` for an error. -/
  fromStr : Text → Option Value
  /-- `to_string(..).unwrap_or_default()`. -/
  toStr : Value → Text
  /-- The entries of a `Value::Mapping`, in document order. -/
  asMapping : Value → Option (List (Value × Value))
  /-- The text of a `Value::String`. -/
  asString : Value → Option Text

namespace Yaml

variable {Value : Type} (yaml : Yaml Value)

/-- A document that reads as a mapping, as its entries. -/
def readMapping (text : Text) : Option (List (Value × Value)) :=
  (yaml.fromStr text).bind yaml.asMapping

end Yaml

/-! A reader of the simplest documents, for evaluating the model: an optional
document start line, then one `key: value` line of plain strings for each
entry.  Blank and comment lines are skipped.
-/

/-- A plain document: a string, or a mapping of strings. -/
inductive PlainValue where
  | string (text : Text)
  | mapping (entries : List (Text × Text))
  deriving DecidableEq

open Text in
/-- The entry a line holds, or `none` for a line that is no plain entry. -/
def plainEntry (line : Text) : Option (Text × Text) :=
  (splitOnce ": ".toList (trim line)).map fun entry => (trim entry.1, trim entry.2)

open Text in
/-- The entry lines of a document, its start marker passed over. -/
def plainLines (text : Text) : List Text :=
  let content := (splitInclusive text).filter fun line =>
    !(trim line).isEmpty && !startsWith (trim line) ['#']
  match content with
  | [] => []
  | first :: rest => if trimEnd first = "---".toList then rest else first :: rest

def plainYaml : Yaml PlainValue where
  fromStr text := ((plainLines text).mapM plainEntry).bind fun entries =>
    if entries.isEmpty then none else some (.mapping entries)
  toStr value :=
    match value with
    | .string text => text ++ ['\n']
    | .mapping entries => (entries.map fun entry =>
        entry.1 ++ ": ".toList ++ entry.2 ++ ['\n']).flatten
  asMapping value :=
    match value with
    | .mapping entries =>
        some (entries.map fun entry => (.string entry.1, .string entry.2))
    | .string _ => none
  asString value :=
    match value with
    | .string text => some text
    | .mapping _ => none

end Crystalline
