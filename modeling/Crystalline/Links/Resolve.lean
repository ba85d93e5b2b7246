import Crystalline.Text.Basic

/-!
# Resolving a link target

The inside of a wikilink is read as `[domain:]target[#fragment][|display text]`.
Titles are compared in any letter case; the case folding is a parameter.
-/

namespace Crystalline.Links

open Text

inductive LinkForm where
  | wiki
  | relative
  deriving DecidableEq

structure LinkTarget where
  domain : Option Text
  target : Text
  /-- What stands behind the first `#`. -/
  fragment : Option Text
  /-- The target with its `#` left in, when that names the same domain. -/
  whole : Option Text
  raw : Text
  form : LinkForm
  /-- The display text behind the first `|`. -/
  aliasText : Option Text
  deriving DecidableEq

/-- The domain and the target of a part whose first colon group is a prefix. -/
def prefixOf (part : Text) : Option (Text × Text) :=
  match splitOnce [':'] part with
  | some (domain, rest) =>
      if !(trim domain).isEmpty && !(trim rest).isEmpty &&
          !(trim domain).any isWhitespace then some (trim domain, trim rest)
      else none
  | none => none

def readPrefix (part : Text) (aliasText : Option Text) : LinkTarget :=
  match prefixOf part with
  | some (domain, rest) =>
      { domain := some domain, target := rest, fragment := none, whole := none,
        raw := part, form := .wiki, aliasText }
  | none =>
      { domain := none, target := part, fragment := none, whole := none, raw := part,
        form := .wiki, aliasText }

def splitFragment (part : Text) : Text × Option Text :=
  match splitOnce ['#'] part with
  | some (before, after) => if !(trim before).isEmpty then (before, some after) else (part, none)
  | none => (part, none)

def splitAlias (inner : Text) : Text × Option Text :=
  match splitOnce ['|'] inner with
  | some (target, aliasText) =>
      (trim target, if !(trim aliasText).isEmpty then some (trim aliasText) else none)
  | none => (trim inner, none)

/-- The rest of `LinkTarget::parse` once the display text is split off. -/
def parsePart (part : Text) (aliasText : Option Text) : LinkTarget :=
  match splitFragment part with
  | (_, none) => readPrefix part aliasText
  | (before, some fragment) =>
      let link := readPrefix (trim before) aliasText
      let unsplit := readPrefix part none
      { link with
        whole := if unsplit.domain = link.domain then some unsplit.target else link.whole
        fragment := if !(trim fragment).isEmpty then some (trim fragment) else none }

/-- `LinkTarget::parse`. -/
def LinkTarget.parse (inner : Text) : LinkTarget :=
  parsePart (splitAlias inner).1 (splitAlias inner).2

structure ResolvedRef where
  domain : Text
  permalink : Text
  deriving DecidableEq

inductive Resolution where
  | resolved (found : ResolvedRef)
  | unresolved
  | crossDomainUnresolved (domain : Text)
  deriving DecidableEq

/-- The trait `LinkResolver`. -/
structure LinkResolver where
  byPermalink : Text → Text → Option ResolvedRef
  byTitle : Text → Text → Option ResolvedRef
  isDomain : Text → Bool

/-- A whole text with a `#` as a title, before anything else. -/
def resolveWhole (target : LinkTarget) (currentDomain : Text) (lookup : LinkResolver) :
    Option ResolvedRef :=
  target.whole.bind (lookup.byTitle (target.domain.getD currentDomain))

/-- A permalink match, then a title match. -/
def resolveIn (domain text : Text) (lookup : LinkResolver) : Option ResolvedRef :=
  (lookup.byPermalink domain text).or (lookup.byTitle domain text)

def resolve (target : LinkTarget) (currentDomain : Text) (lookup : LinkResolver) :
    Resolution :=
  match resolveWhole target currentDomain lookup with
  | some found => .resolved found
  | none =>
      match target.domain with
      | some domain =>
          let found := (resolveIn domain target.target lookup).or
            (if !lookup.isDomain domain then resolveIn currentDomain target.raw lookup
              else none)
          match found with
          | some found => .resolved found
          | none => .crossDomainUnresolved domain
      | none =>
          match resolveIn currentDomain target.target lookup with
          | some found => .resolved found
          | none => .unresolved

/-- What the target finds where it points, the unregistered-prefix fallback
left out. -/
def resolveDirect (target : LinkTarget) (currentDomain : Text) (lookup : LinkResolver) :
    Option ResolvedRef :=
  (resolveWhole target currentDomain lookup).or
    (resolveIn (target.domain.getD currentDomain) target.target lookup)

theorem resolve_of_direct {target : LinkTarget} {currentDomain : Text}
    {lookup : LinkResolver} {found : ResolvedRef}
    (direct : resolveDirect target currentDomain lookup = some found) :
    resolve target currentDomain lookup = .resolved found := by
  rw [resolveDirect, Option.or_eq_some_iff] at direct
  rcases direct with whole | ⟨noWhole, inDomain⟩
  · rw [resolve, whole]
  · rw [resolve, noWhole]
    cases named : target.domain with
    | none =>
        rw [named] at inDomain
        simp only [Option.getD_none] at inDomain
        simp only [inDomain]
    | some domain =>
        rw [named] at inDomain
        simp only [Option.getD_some] at inDomain
        simp only [inDomain, Option.some_or]

/-- `str::to_lowercase` on ASCII. -/
def asciiLowercase (text : Text) : Text :=
  text.map fun char =>
    if isAsciiUppercase char then Char.ofNat (char.toNat + 32) else char

/-- An engram as a table holds it. -/
structure Held where
  domain : Text
  permalink : Text
  title : Text
  deriving DecidableEq

def Held.ref (held : Held) : ResolvedRef := ⟨held.domain, held.permalink⟩

/-- A `LookupTable`: what was inserted, the last insertion first, so that it wins
over an earlier one with its key. -/
structure LookupTable where
  held : List Held
  domains : List Text

namespace LookupTable

def insert (table : LookupTable) (engram : Held) : LookupTable :=
  { held := engram :: table.held, domains := engram.domain :: table.domains }

/-- The table as a resolver, for the case folding `toLowercase`. -/
def resolver (toLowercase : Text → Text) (table : LookupTable) : LinkResolver where
  byPermalink domain permalink :=
    (table.held.find? fun held => held.domain == domain && held.permalink == permalink).map
      Held.ref
  byTitle domain title :=
    (table.held.find? fun held =>
      held.domain == domain && toLowercase held.title == toLowercase title).map Held.ref
  isDomain name := table.domains.contains name

section Insert

variable {toLowercase : Text → Text} (table : LookupTable) (engram : Held)

theorem byPermalink_insert (domain permalink : Text) :
    (resolver toLowercase (table.insert engram)).byPermalink domain permalink =
      if engram.domain = domain ∧ engram.permalink = permalink then some engram.ref
      else (resolver toLowercase table).byPermalink domain permalink := by
  simp only [resolver, insert, List.find?_cons]
  by_cases same : engram.domain = domain ∧ engram.permalink = permalink
  · simp [same]
  · rw [if_neg same]
    have differs : (engram.domain == domain && engram.permalink == permalink) = false := by
      simpa [← not_and] using same
    rw [differs]

theorem byTitle_insert (domain title : Text) :
    (resolver toLowercase (table.insert engram)).byTitle domain title =
      if engram.domain = domain ∧ toLowercase engram.title = toLowercase title then
        some engram.ref
      else (resolver toLowercase table).byTitle domain title := by
  simp only [resolver, insert, List.find?_cons]
  by_cases same : engram.domain = domain ∧ toLowercase engram.title = toLowercase title
  · simp [same]
  · rw [if_neg same]
    have differs : (engram.domain == domain &&
        toLowercase engram.title == toLowercase title) = false := by
      simpa [← not_and] using same
    rw [differs]

end Insert

section Absent

variable {toLowercase : Text → Text} {table : LookupTable} {domain text : Text}

theorem byPermalink_eq_none (absent : ∀ held ∈ table.held, held.domain = domain →
    held.permalink ≠ text) :
    (resolver toLowercase table).byPermalink domain text = none := by
  simp only [resolver, Option.map_eq_none_iff, List.find?_eq_none]
  intro held member
  simpa using absent held member

theorem byTitle_eq_none (absent : ∀ held ∈ table.held, held.domain = domain →
    toLowercase held.title ≠ toLowercase text) :
    (resolver toLowercase table).byTitle domain text = none := by
  simp only [resolver, Option.map_eq_none_iff, List.find?_eq_none]
  intro held member
  simpa using absent held member

end Absent

end LookupTable

end Crystalline.Links
