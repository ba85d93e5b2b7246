import Crystalline.Frontmatter.BlockEdit
import Crystalline.Frontmatter.Merge
import Crystalline.Text.LineEndings

/-!
# The three-way merge of an engram

The frontmatter is merged key by key, the body with the line merge, and the
whole text with it where the frontmatter steps aside.  A clean result that no
longer parses while both sides did is a conflict.
-/

namespace Crystalline

open Text

section

variable {Value : Type} [DecidableEq Value] (yaml : Yaml Value) (lineMerge : LineMerge)
  (parses : Text → Bool)

/-- `breaks_parse`. -/
def breaksParse (localText upstreamText merged : Text) : Bool :=
  parses localText && parses upstreamText && !parses merged

/-- `merge_text`, every side read as LF; `none` is a conflict. -/
def mergeText (base : Option Text) (localText upstreamText : Text) : Option Text :=
  let base := base.map toLf
  let localText := toLf localText
  let upstreamText := toLf upstreamText
  let merged :=
    match mergeFrontmatter yaml lineMerge base localText upstreamText with
    | .clean head baseBody localBody upstreamBody =>
        ((settle baseBody localBody upstreamBody).or
          (lineMerge baseBody localBody upstreamBody)).map (head ++ ·)
    | .conflict => none
    | .notApplicable => lineMerge (base.getD []) localText upstreamText
  merged.filter fun text => !breaksParse parses localText upstreamText text

/-- `same_content`. -/
def sameContent (left right : Text) : Bool :=
  match splitFrontmatter left, splitFrontmatter right with
  | none, none => left = right
  | some left, some right =>
      if left.body ≠ right.body then false
      else match yaml.fromStr left.yaml, yaml.fromStr right.yaml with
        | some left, some right => left = right
        | _, _ => false
  | _, _ => false

end

/-- The loop of `remove_frontmatter_field`: the lines without the first that
sets the key. -/
def withoutField (key : Text) : List Text → Option Text
  | [] => none
  | line :: lines =>
      if lineSetsKey (withoutNewline line) key then some lines.flatten
      else (withoutField key lines).map (line ++ ·)

/-- `remove_frontmatter_field`. -/
def removeFrontmatterField (source key : Text) : Text :=
  match splitFrontmatter source with
  | none => source
  | some parts =>
      match withoutField key (splitInclusive parts.yaml) with
      | some newRaw => parts.openLine ++ newRaw ++ (parts.closeLine ++ parts.body)
      | none => source

/-- The loop of `set_frontmatter_line`: the lines with the first that sets the
key rewritten. -/
def withLine (key newLine : Text) : List Text → Option Text
  | [] => none
  | line :: lines =>
      if lineSetsKey (withoutNewline line) key then
        some (newLine ++ (if endsWith line ['\n'] then ['\n'] else []) ++ lines.flatten)
      else (withLine key newLine lines).map (line ++ ·)

/-- `set_frontmatter_line` of one key. -/
def setFrontmatterLine (source key newLine : Text) : Text :=
  editFrontmatter source (fun raw =>
    match withLine key newLine (splitInclusive raw) with
    | some newRaw => newRaw
    | none =>
        (if !raw.isEmpty && !endsWith raw ['\n'] then raw ++ ['\n'] else raw) ++
          newLine ++ ['\n']) newLine

end Crystalline
