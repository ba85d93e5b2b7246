import Crystalline.Remote.Records

/-!
# Which paths of a domain a share is about

Hidden paths and the activity log never travel; a generated index travels when
the domain says so, and the Reflection's folder not while it is in effect.
-/

namespace Crystalline.Remote

open Text

/-- The components of a path, as `split('/')` gives them. -/
def components (path : Path) : List Text := path.splitOn '/'

/-- `rsplit('/').next()`: the file name. -/
def fileName (path : Path) : Text := (components path).getLastD []

/-- `eq_ignore_ascii_case` on texts. -/
def eqIgnoreCase (left right : Text) : Bool :=
  left.map Char.toLower = right.map Char.toLower

def domainConfigFileName : Text := ".crystalline.yaml".toList

/-- `is_hidden`. -/
def isHidden (name : Text) : Bool :=
  startsWith name ".".toList && name ≠ ".".toList && name ≠ "..".toList &&
    name ≠ domainConfigFileName

/-- `is_hidden_path`. -/
def isHiddenPath (path : Path) : Bool := (components path).any isHidden

/-- `is_index_path`. -/
def isIndexPath (path : Path) : Bool := fileName path = "index.md".toList

/-- `is_reserved_path`. -/
def isReservedPath (path : Path) : Bool :=
  fileName path = "index.md".toList || fileName path = "log.md".toList

/-- `is_excluded_path`. -/
def isExcludedPath (path : Path) : Bool :=
  isHiddenPath path || (isReservedPath path && !isIndexPath path)

/-- Whether a domain's generated indexes travel with it. -/
inductive GeneratedIndexes where
  | onlyLocal
  | shared
  deriving DecidableEq, Repr

/-- `participates_in_change_detection`. -/
def participates (indexes : GeneratedIndexes) (path : Path) : Bool :=
  if isExcludedPath path then false
  else indexes = .shared || !isIndexPath path

inductive ReflectionMode where
  | off
  | effective
  deriving DecidableEq, Repr

/-- What a path of the domain is, as far as a share asks; a layout without
artifact folders has no artifact paths. -/
inductive PathClass where
  | engram
  | engramAsset
  | reserved
  | hidden
  | other
  | reflection
  deriving DecidableEq, Repr

/-- `PathClass::shares`. -/
def PathClass.shares : PathClass → Bool
  | engram | engramAsset | reserved | hidden | other => true
  | reflection => false

/-- `trim_start_matches("./")`, with the length as the bound of its loop. -/
def trimDotSlashFrom : Nat → Text → Text
  | 0, text => text
  | bound + 1, text =>
      match stripPrefix "./".toList text with
      | some rest => trimDotSlashFrom bound rest
      | none => text

def trimDotSlash (text : Text) : Text := trimDotSlashFrom text.length text

/-- `is_under_reflections`. -/
def isUnderReflections (path : Path) : Bool :=
  eqIgnoreCase ((components (trimDotSlash path)).headD []) "reflections".toList

/-- `is_under_assets`. -/
def isUnderAssets (path : Path) : Bool :=
  eqIgnoreCase ((components path).headD []) "assets".toList

/-- `is_hidden_segment` of the layout, which knows no config file. -/
def isHiddenSegment (segment : Text) : Bool :=
  startsWith segment ".".toList && segment ≠ ".".toList && segment ≠ "..".toList

/-- `DomainLayout::classify` of a bare layout. -/
def classify (reflection : ReflectionMode) (path : Path) : PathClass :=
  let path := trimDotSlash path
  if reflection = .effective && isUnderReflections path then .reflection
  else if (components path).any isHiddenSegment then .hidden
  else if isReservedPath path then .reserved
  else if isUnderAssets path then .engramAsset
  else if endsWith (path.map Char.toLower) ".md".toList then .engram
  else .other

/-- What a share is told about the domain's own rules. -/
structure SharePolicy where
  indexes : GeneratedIndexes
  reflection : ReflectionMode
  deriving DecidableEq, Repr

/-- Whether a path takes part in change detection, asked of the walk and of the
base alike. -/
def SharePolicy.takesPart (policy : SharePolicy) (path : Path) : Bool :=
  participates policy.indexes path && (classify policy.reflection path).shares

/-- The stem and the extension of a file name, as `Path::extension` cuts it: at
the last dot, unless the name starts with its only one. -/
def extension (path : Path) : Option Text :=
  let after := (fileName path).reverse.takeWhile (· ≠ '.')
  let before := (fileName path).reverse.drop (after.length + 1)
  if before = [] || after.length = (fileName path).length then none
  else some after.reverse

/-- Whether the path names a markdown file. -/
def isMarkdown (path : Path) : Bool :=
  (extension path).any fun ext => eqIgnoreCase ext "md".toList

theorem SharePolicy.takesPart_visible {policy : SharePolicy} {path : Path}
    (takes : policy.takesPart path = true) : isHiddenPath path = false := by
  unfold takesPart participates at takes
  split at takes
  · simp at takes
  · rename_i kept
    unfold isExcludedPath at kept
    cases hidden : isHiddenPath path with
    | false => rfl
    | true => simp [hidden] at kept

example : isMarkdown "notes/A.Md".toList = true := by decide

end Crystalline.Remote
