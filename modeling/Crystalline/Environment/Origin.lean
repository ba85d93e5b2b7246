import Crystalline.Text.Basic

/-!
# Origins and readers from a variable's value

The value of an origin variable is `owner/repo[/subpath][@branch]`.
-/

namespace Crystalline.Environment

open Text

/-- The repository a team domain tracks. -/
structure OriginConfig where
  /-- `owner/name`. -/
  repo : Text
  path : Option Text
  branch : Option Text
  pollSecs : Option Nat
  deriving DecidableEq

/-- `str::rsplit_once` on a character. -/
def rsplitOnce (char : Char) (text : Text) : Option (Text × Text) :=
  (splitOnce [char] text.reverse).map fun parts => (parts.2.reverse, parts.1.reverse)

/-- `owner/repo[/subpath]` as `owner/repo` and the subpath. -/
def parseOriginSpec (spec : Text) : Except Text (Text × Option Text) :=
  let refused := "must look like owner/repo or owner/repo/subpath, got '".toList ++ spec ++ ['\'']
  match splitOnce ['/'] spec with
  | none => .error refused
  | some (owner, rest) =>
      let parts :=
        match splitOnce ['/'] rest with
        | none => (rest, none)
        | some (repo, subpath) => (repo, some subpath)
      if owner.isEmpty || parts.1.isEmpty then .error refused
      else .ok (owner ++ '/' :: parts.1, parts.2.filter fun subpath => !subpath.isEmpty)

def validRepoSegment (segment : Text) : Bool :=
  !segment.isEmpty && segment != ".".toList && segment != "..".toList &&
    segment.all fun char => isAsciiAlphanumeric char || char ∈ ['-', '_', '.']

def validateRepo (repo : Text) : Except Text Unit :=
  let refused := ['\''] ++ repo ++
    ("' is not a valid repository: expected owner/name, letters, digits, '-', " ++
      "'_' and '.' only in each, and exactly one slash").toList
  match splitMatches (· == '/') repo with
  | [owner, name] =>
      if validRepoSegment owner && validRepoSegment name then .ok () else .error refused
  | _ => .error refused

def badSegment (segment : Text) : Bool :=
  segment.isEmpty || segment == ".".toList || segment == "..".toList

def validateRepoPath (path : Text) : Except Text Unit :=
  let refused := ['\''] ++ path ++
    ("' is not a valid path within the repository: no leading slash, no " ++
      "backslash, no '%' character, and no '.', '..' or empty segment").toList
  if startsWith path ['/'] then .error refused
  else
    let trimmed := trimEndMatches (· == '/') path
    if trimmed.isEmpty then .ok ()
    else if trimmed.any (fun char => char ∈ ['\\', '%']) ||
        (splitMatches (· == '/') trimmed).any badSegment then .error refused
    else .ok ()

/-- The repository of an origin value, with its branch still to be set. -/
def originAt (spec : Text) (branch : Option Text) : Except Text OriginConfig :=
  (parseOriginSpec spec).bind fun parts =>
    (validateRepo parts.1).bind fun _ =>
      let origin := { repo := parts.1, path := parts.2, branch := branch, pollSecs := none }
      match parts.2 with
      | none => .ok origin
      | some path => (validateRepoPath path).map fun _ => origin

def parseEnvOrigin (value : Text) : Except Text OriginConfig :=
  match rsplitOnce '@' value with
  | none => originAt value none
  | some (spec, branch) =>
      if branch.isEmpty then .error "the branch after '@' must not be empty".toList
      else originAt spec (some branch)

/-- Who may read a team domain. -/
inductive Readers where
  | shared
  | private_
  deriving DecidableEq

/-- `to_ascii_lowercase`. -/
def asciiLower (text : Text) : Text := text.map Char.toLower

/-- `Readers::parse`: `shared` or `private`. -/
def Readers.parse (value : Text) : Option Readers :=
  let word := asciiLower (trim value)
  if word = "shared".toList then some .shared
  else if word = "private".toList then some .private_
  else none

example : (parseEnvOrigin "acme/kb/docs/eng@main".toList).toOption =
    some ⟨"acme/kb".toList, some "docs/eng".toList, some "main".toList, none⟩ := by decide

end Crystalline.Environment
