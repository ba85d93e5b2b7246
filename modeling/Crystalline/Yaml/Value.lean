import Crystalline.Yaml

/-!
# YAML values

The library's value type, and the library as its callers use it.  Floating point
numbers are a parameter.
-/

namespace Crystalline

/-- A number of the library: every integer of the ranges of `i64` and `u64`,
or a float. -/
inductive Number (Float64 : Type) where
  | integer (value : Int)
  | float (value : Float64)
  deriving DecidableEq

/-- `serde_yaml_ng::Value`. -/
inductive Value (Float64 : Type) where
  | null
  | bool (value : Bool)
  | number (value : Number Float64)
  | string (text : Text)
  | sequence (items : List (Value Float64))
  | mapping (entries : List (Value Float64 × Value Float64))
  | tagged (tag : Text) (value : Value Float64)

/-- What the crate uses of the YAML library. -/
structure Backend (Float64 : Type) where
  /-- `from_str::<Value>`, with the library's message for an error. -/
  fromStr : Text → Except Text (Value Float64)
  /-- `to_string(..).unwrap_or_default()`. -/
  toStr : Value Float64 → Text

variable {Float64 : Type}

namespace Backend

variable (backend : Backend Float64)

/-- The library as the key block functions see it. -/
def yaml : Yaml (Value Float64) where
  fromStr text := (backend.fromStr text).toOption
  toStr := backend.toStr
  asMapping value :=
    match value with
    | .mapping entries => some entries
    | _ => none
  asString value :=
    match value with
    | .string text => some text
    | _ => none

end Backend

end Crystalline
