import Mathlib.Algebra.Order.Ring.Nat
import Crystalline.Remote.Paths

/-!
# What every path of a domain is

A domain folder holds engrams, attachments, reserved names, hidden files, the
artifact folders its manifest provisions and, while its Reflection is in
effect, the Reflection's own folder.  Every walk of a domain asks the layout.
-/

namespace Crystalline.Sync

open Text
open Remote (Path ReflectionMode components fileName eqIgnoreCase isReservedPath
  isUnderAssets isUnderReflections isHiddenSegment trimDotSlash)

/-- The allowlist of attachments: extensions and the types they are served
under. -/
def attachmentTypes : List (String × String) :=
  [("png", "image/png"), ("jpg", "image/jpeg"), ("jpeg", "image/jpeg"), ("gif", "image/gif"),
    ("webp", "image/webp"), ("svg", "image/svg+xml"), ("pdf", "application/pdf"),
    ("pptx", "application/vnd.openxmlformats-officedocument.presentationml.presentation"),
    ("odp", "application/vnd.oasis.opendocument.presentation"),
    ("docx", "application/vnd.openxmlformats-officedocument.wordprocessingml.document"),
    ("odt", "application/vnd.oasis.opendocument.text"),
    ("xlsx", "application/vnd.openxmlformats-officedocument.spreadsheetml.sheet"),
    ("ods", "application/vnd.oasis.opendocument.spreadsheet"), ("txt", "text/plain"),
    ("log", "text/plain"), ("csv", "text/csv"), ("json", "application/json"),
    ("yaml", "application/yaml"), ("yml", "application/yaml"), ("toml", "application/toml"),
    ("xml", "application/xml")]

/-- `rsplit_once('.')`: what follows the last dot. -/
def afterLastDot (name : Text) : Option Text :=
  if '.' ∈ name then some (name.reverse.takeWhile (· ≠ '.')).reverse else none

/-- `attachment_mime`.  No letter outside ASCII is lowercased to one of the
table's, so the ASCII fold decides as `to_lowercase` does. -/
def attachmentMime (filename : Text) : Option String := do
  let extension ← afterLastDot filename
  let row ← attachmentTypes.find? fun row => row.1.toList = extension.map Char.toLower
  return row.2

/-- `canonical_asset_path`: the folder's own segment spelled `assets`. -/
def canonicalAssetPath (path : Path) : Option Path :=
  if isUnderAssets path then
    match splitOnce "/".toList path with
    | some (_, rest) => some ("assets/".toList ++ rest)
    | none => some "assets".toList
  else none

inductive AssetPathError where
  | notUnderAssets
  | emptySegment
  | dotSegment
  | hiddenSegment
  | badCharacter
  | tooLong
  | disallowedExtension
  deriving DecidableEq, Repr

/-- `char::is_control`. -/
def isControl (char : Char) : Bool :=
  char.toNat < 0x20 || (0x7F ≤ char.toNat && char.toNat ≤ 0x9F)

def isBadAssetCharacter (char : Char) : Bool :=
  char = '\\' || char = ':' || char = '#' || char = '%' || char = ' ' || char = '(' ||
    char = ')' || isControl char

/-- The longest asset path, in bytes. -/
def maxAssetPathBytes : Nat := 256

/-- `str::len`. -/
def byteLength (text : Text) : Nat := (text.map Char.utf8Size).sum

def assetSegmentError (segment : Text) : Option AssetPathError :=
  if segment = [] then some .emptySegment
  else if segment = ".".toList || segment = "..".toList then some .dotSegment
  else if startsWith segment ".".toList then some .hiddenSegment
  else none

/-- `validate_asset_path`. -/
def validateAssetPath (path : Path) : Except AssetPathError Unit :=
  match stripPrefix "assets/".toList path with
  | none => .error .notUnderAssets
  | some rest =>
      if maxAssetPathBytes < byteLength path then .error .tooLong
      else if path.any isBadAssetCharacter then .error .badCharacter
      else match (components rest).findSome? assetSegmentError with
        | some refused => .error refused
        | none =>
            if (attachmentMime (fileName rest)).isNone then .error .disallowedExtension
            else .ok ()

/-- Why a path cannot name a reflection. -/
inductive ReflectionPathError where
  | empty
  | insideAssets
  | notForwardSlashed
  | notMarkdown
  | threads
  | emptyOrDotSegment
  | hiddenSegment
  | reservedName
  | pactSpelling
  deriving DecidableEq, Repr

def pactFile : Text := "PACT.md".toList

def threadsSuffix : Text := ".threads.md".toList

/-- `is_pact`. -/
def isPact (path : Path) : Bool := eqIgnoreCase path pactFile

def reflectionSegmentError (segment : Text) : Option ReflectionPathError :=
  if segment = [] || segment = ".".toList || segment = "..".toList then some .emptyOrDotSegment
  else if startsWith segment ".".toList then some .hiddenSegment
  else none

/-- `validate_reflection_path`. -/
def validateReflectionPath (path : Path) : Except ReflectionPathError Unit :=
  if path = [] then .error .empty
  else if isUnderAssets path then .error .insideAssets
  else if '\\' ∈ path || startsWith path "/".toList then .error .notForwardSlashed
  else if !endsWith path ".md".toList then .error .notMarkdown
  else if endsWith path threadsSuffix then .error .threads
  else match (components path).findSome? reflectionSegmentError with
    | some refused => .error refused
    | none =>
        if isReservedPath path then .error .reservedName
        else if isPact path && path ≠ pactFile then .error .pactSpelling
        else .ok ()

/-- What one file inside the Reflection's folder is. -/
inductive ReflectionFile where
  | page (path : Path)
  | pact
  | threads (page : Path)
  | baseline (page : Path)
  | asset (canonical : Path)
  | other
  deriving DecidableEq, Repr

def isValidReflectionPath (path : Path) : Bool :=
  (validateReflectionPath path).toOption.isSome

/-- `threads_of`. -/
def threadsOf (path : Path) : Option Path := do
  let stem ← stripSuffix threadsSuffix path
  let page := stem ++ ".md".toList
  if isValidReflectionPath page then some page else none

/-- `reflection::classify`. -/
def classifyReflection (path : Path) : ReflectionFile :=
  match canonicalAssetPath path with
  | some canonical =>
      if (validateAssetPath canonical).toOption.isSome then .asset canonical else .other
  | none =>
      if isPact path then .pact
      else match stripPrefix ".reflected/".toList path with
        | some page =>
            if isValidReflectionPath page || (threadsOf page).isSome then .baseline page
            else .other
        | none =>
            if endsWith path threadsSuffix then
              match threadsOf path with
              | some page => .threads page
              | none => .other
            else if isValidReflectionPath path then .page path
            else .other

/-- What one domain-relative path is. -/
inductive PathClass where
  | engram
  | engramAsset
  | reserved
  | hidden
  | artifact
  | other
  | reflection (file : ReflectionFile)
  deriving DecidableEq, Repr

/-- The in-root artifact folders of a domain and its Reflection mode. -/
structure DomainLayout where
  artifacts : List Path
  reflection : ReflectionMode
  deriving DecidableEq, Repr

namespace DomainLayout

/-- `DomainLayout::in_artifact`. -/
def inArtifact (layout : DomainLayout) (path : Path) : Bool :=
  layout.artifacts.any fun folder =>
    path = folder || (stripPrefix folder path).any fun rest => startsWith rest "/".toList

/-- `inner_rel`: the path inside the Reflection's folder. -/
def innerRel (path : Path) : Path := ((splitOnce "/".toList path).map Prod.snd).getD []

/-- `DomainLayout::classify`. -/
def classify (layout : DomainLayout) (path : Path) : PathClass :=
  let path := trimDotSlash path
  if layout.reflection = .effective && isUnderReflections path then
    .reflection (classifyReflection (innerRel path))
  else if (components path).any isHiddenSegment then .hidden
  else if isReservedPath path then .reserved
  else if layout.inArtifact path then .artifact
  else if isUnderAssets path then .engramAsset
  else if endsWith (path.map Char.toLower) ".md".toList then .engram
  else .other

/-- `DomainLayout::enters_dir`. -/
def entersDir (layout : DomainLayout) (path : Path) : Bool :=
  let path := trimDotSlash path
  !(components path).any isHiddenSegment && !layout.inArtifact path

/-- `DomainLayout::bare`. -/
def bare (reflection : ReflectionMode) : DomainLayout := ⟨[], reflection⟩

end DomainLayout

example : classifyReflection "guides/pumps.threads.md".toList =
    .threads "guides/pumps.md".toList := by decide

end Crystalline.Sync
