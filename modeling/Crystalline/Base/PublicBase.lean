import Crystalline.Text.Trim
import Crystalline.Url.Whatwg

/-!
# Base paths as they are written

An accepted path is the text of its segments, with one slash more at the end or
without it.  The url standard reads such a text as it stands, and the text of a
base path is accepted as that base path.
-/

namespace Crystalline.Base

open Text Whatwg

/-- The first segments the server and Fluid answer at. -/
def reservedFirstSegments : List Text :=
  ["api".toList, "assets".toList, "health".toList, ".well-known".toList,
    "robots.txt".toList, "humans.txt".toList, "login".toList, "π".toList, "d".toList,
    "draft".toList, "search".toList, "graph".toList, "authorize".toList,
    "maintenance".toList, "users".toList, "settings".toList, "profile".toList]

/-- Why a path cannot be a base path. -/
inductive PathProblem where
  | emptySegment
  | dotSegment (segment : Text)
  | character (segment : Text)
  | reserved (segment : Text)
  | queryOrFragment
  | backslash
  deriving DecidableEq

/-- The reason, as the end of a sentence that names the setting first. -/
def PathProblem.sentence : PathProblem → Text
  | emptySegment => "its path has an empty segment (two slashes in a row)".toList
  | dotSegment segment =>
      "its path has a '".toList ++ segment ++
        "' segment, which a browser resolves away".toList
  | character segment =>
      "its path segment '".toList ++ segment ++
        "' may use only lower-case letters, digits, '.', '_' and '-'".toList
  | reserved segment =>
      "its path cannot start with '".toList ++ segment ++
        "': the server answers there itself, ".toList ++
        "so a proxy that strips the path would send those requests to the wrong place".toList
  | queryOrFragment => "it carries a query or a fragment".toList
  | backslash =>
      "it has a backslash, which a url parser reads as '/'; an address uses '/' only".toList

/-- The characters of a base path segment. -/
def isSegmentChar (char : Char) : Bool :=
  isAsciiLowercase char || isAsciiDigit char || char ∈ ['.', '_', '-']

def eqIgnoreAsciiCase (left right : Text) : Bool :=
  left.map toAsciiLowercase = right.map toAsciiLowercase

/-- What one turn of the loop over the segments refuses. -/
def segmentProblem (first : Bool) (segment : Text) : Option PathProblem :=
  if segment = [] then some .emptySegment
  else if segment = ".".toList || segment = "..".toList then some (.dotSegment segment)
  else if !segment.all isSegmentChar then some (.character segment)
  else if first && reservedFirstSegments.any (eqIgnoreAsciiCase · segment) then
    some (.reserved segment)
  else none

/-- The loop over the segments: the first problem of them. -/
def segmentsProblem (first : Bool) : List Text → Option PathProblem
  | [] => none
  | segment :: rest => (segmentProblem first segment).or (segmentsProblem false rest)

/-- The path a server is served under: empty at the root, otherwise segments
that each follow one slash. -/
structure BasePath where
  asStr : Text
  formed : ∃ segments, asStr = joined '/' segments ∧ segmentsProblem true segments = none

theorem BasePath.ext {left right : BasePath} (same : left.asStr = right.asStr) :
    left = right := by
  cases left
  cases right
  cases same
  rfl

instance : DecidableEq BasePath := fun left right =>
  decidable_of_iff (left.asStr = right.asStr) ⟨BasePath.ext, congrArg BasePath.asStr⟩

/-- No prefix. -/
def BasePath.root : BasePath := ⟨[], [], rfl, rfl⟩

theorem formed_of_stripPrefix {trimmed rest : Text}
    (stripped : stripPrefix ['/'] trimmed = some rest)
    (checked : segmentsProblem true (splitMatches (· == '/') rest) = none) :
    ∃ segments, trimmed = joined '/' segments ∧ segmentsProblem true segments = none :=
  ⟨_, by rw [joined_splitMatches, stripPrefix_eq_some_iff.mp stripped]; rfl, checked⟩

/-- The text without one slash at its end. -/
def withoutEndSlash (text : Text) : Text := (stripSuffix ['/'] text).getD text

/-- `BasePath::parse`. -/
def BasePath.parse (path : Text) : Except PathProblem BasePath :=
  if path = [] || path = ['/'] then .ok .root
  else
    match stripped : stripPrefix ['/'] (withoutEndSlash path) with
    | none => .error (.character (withoutEndSlash path))
    | some rest =>
        match checked : segmentsProblem true (splitMatches (· == '/') rest) with
        | some problem => .error problem
        | none => .ok ⟨withoutEndSlash path, formed_of_stripPrefix stripped checked⟩

/-- What follows the first `://`, or the whole text. -/
def afterScheme (url : Text) : Text :=
  match splitOnce "://".toList url with
  | some parts => parts.2
  | none => url

/-- A character the hand-written reader cuts the host at. -/
def cutsHost (char : Char) : Bool := char ∈ ['/', '?', '#']

/-- The text behind the host, as it is written. -/
def writtenTail (url : Text) : Text :=
  (afterScheme url).dropWhile fun char => !cutsHost char

/-- `BasePath::of_url`. -/
def BasePath.ofUrl (url : Text) : Except PathProblem BasePath :=
  let url := trim url
  if '\\' ∈ url then .error .backslash
  else if (writtenTail url).any endsPath then .error .queryOrFragment
  else BasePath.parse (writtenTail url)

/-- Why a value cannot be a server's public address. -/
inductive BaseProblem where
  | notAbsolute
  | scheme
  | noHost
  | userinfo
  | path (problem : PathProblem)
  deriving DecidableEq

/-- The reason, as the end of a sentence that names the address first. -/
def BaseProblem.sentence : BaseProblem → Text
  | notAbsolute => "it is not an absolute url".toList
  | scheme => "it is not an http or https url".toList
  | noHost => "it names no host".toList
  | userinfo => "it carries a user name or password".toList
  | path problem => problem.sentence

/-- What is read of a parsed url; the origin is in its ascii serialisation. -/
structure Url where
  scheme : Text
  username : Text
  password : Option Text
  host : Option Text
  path : Text
  origin : Text

/-- The url crate's parser, as far as it is relied on: it reads an http address
as the standard does, what it makes of the authority depends on nothing around
it, and an origin is serialised as an address it reads back. -/
structure UrlCrate where
  parse : Text → Option Url
  reads : ∀ {text url}, parse text = some url → isHttp url.scheme = true →
    ∃ address, readHttp text = some address ∧ address.scheme = url.scheme ∧
      address.path = url.path
  authority : ∀ {text url other address same}, parse text = some url →
    readHttp text = some address → readHttp other = some same →
    same.scheme = address.scheme → same.authority = address.authority →
    ∃ again, parse other = some again ∧ again.scheme = url.scheme ∧
      again.origin = url.origin
  origin : ∀ {text url}, parse text = some url → isHttp url.scheme = true →
    (∃ again, parse url.origin = some again ∧ again.scheme = url.scheme ∧
      again.origin = url.origin) ∧
    ∃ authority, url.origin = url.scheme ++ "://".toList ++ authority ∧ authority ≠ [] ∧
      ∀ char ∈ authority, isC0ControlOrSpace char = false ∧ endsAuthority char = false

/-- A server's public address: its origin and its base path. -/
structure PublicBase where
  origin : Text
  path : BasePath
  deriving DecidableEq

/-- `PublicBase::parse`. -/
def PublicBase.parse (crate : UrlCrate) (value : Text) : Except BaseProblem PublicBase :=
  let value := trim value
  match crate.parse value with
  | none => .error .notAbsolute
  | some url =>
      if !isHttp url.scheme then .error .scheme
      else if url.host = none then .error .noHost
      else if url.username ≠ [] || url.password ≠ none then .error .userinfo
      else
        match BasePath.ofUrl value with
        | .error problem => .error (.path problem)
        | .ok path => .ok ⟨url.origin, path⟩

/-- `PublicBase::join`: the absolute url of a route under the base. -/
def PublicBase.join (base : PublicBase) (path : Text) : Text :=
  base.origin ++ base.path.asStr ++ path

/-- What every segment of a base path is. -/
structure IsSegment (segment : Text) : Prop where
  notEmpty : segment ≠ []
  notDot : segment ≠ ".".toList
  notDots : segment ≠ "..".toList
  chars : ∀ char ∈ segment, isSegmentChar char = true

section Characters

variable {char : Char}

section

variable (allowed : isSegmentChar char = true)
include allowed

theorem code_of_isSegmentChar :
    (0x61 ≤ char.toNat ∧ char.toNat ≤ 0x7A) ∨ (0x30 ≤ char.toNat ∧ char.toNat ≤ 0x39) ∨
      char = '.' ∨ char = '_' ∨ char = '-' := by
  simp only [isSegmentChar, isAsciiLowercase, isAsciiDigit, Bool.or_eq_true,
    Bool.and_eq_true, decide_eq_true_eq, List.mem_cons, List.not_mem_nil, or_false] at allowed
  rcases allowed with (lower | digit) | mark
  · exact .inl lower
  · exact .inr (.inl digit)
  · exact .inr (.inr mark)

theorem not_mem_of_isSegmentChar {others : List Char}
    (refused : (others.all fun other => !isSegmentChar other) = true) : char ∉ others := by
  intro member
  have refusesIt := List.all_eq_true.mp refused char member
  rw [allowed] at refusesIt
  cases refusesIt

theorem visible_of_isSegmentChar : isC0ControlOrSpace char = false := by
  rw [isC0ControlOrSpace, decide_eq_false_iff_not]
  rcases code_of_isSegmentChar allowed with lower | digit | rfl | rfl | rfl
  · omega
  · omega
  · decide
  · decide
  · decide

theorem endsAuthority_of_isSegmentChar : endsAuthority char = false := by
  have slash : char ∉ ['/', '\\'] := not_mem_of_isSegmentChar allowed (by decide)
  have ends : char ∉ ['?', '#'] := not_mem_of_isSegmentChar allowed (by decide)
  rw [endsAuthority, isSlash, endsPath, decide_eq_false slash, decide_eq_false ends]
  rfl

theorem encode_of_isSegmentChar : encode char = [char] := by
  have listed : char ∉ [' ', '"', '#', '<', '>', '?', '^', '\x60', '\x7b', '\x7d'] :=
    not_mem_of_isSegmentChar allowed (by decide)
  have printable : 0x1F < char.toNat ∧ char.toNat ≤ 0x7E := by
    rcases code_of_isSegmentChar allowed with lower | digit | rfl | rfl | rfl
    · omega
    · omega
    · decide
    · decide
    · decide
  have refused : inPathSet char = false := by
    rw [inPathSet, decide_eq_false listed, decide_eq_false (by omega), decide_eq_false (by omega)]
    rfl
  rw [encode, refused]
  rfl

theorem toAsciiLowercase_of_isSegmentChar : toAsciiLowercase char = char := by
  have notUpper : isAsciiUppercase char = false := by
    rcases code_of_isSegmentChar allowed with lower | digit | rfl | rfl | rfl
    · simp only [isAsciiUppercase, Bool.and_eq_false_iff, decide_eq_false_iff_not]
      omega
    · simp only [isAsciiUppercase, Bool.and_eq_false_iff, decide_eq_false_iff_not]
      omega
    · decide
    · decide
    · decide
  rw [toAsciiLowercase, notUpper]
  rfl

end

end Characters

section Segments

variable {segment : Text} {first : Bool}

theorem segmentProblem_eq_none (passes : segmentProblem first segment = none) :
    IsSegment segment := by
  unfold segmentProblem at passes
  split at passes
  · cases passes
  next notEmpty =>
    split at passes
    · cases passes
    next notDots =>
      split at passes
      · cases passes
      next chars =>
        simp only [Bool.or_eq_true, decide_eq_true_eq, not_or] at notDots
        simp only [Bool.not_eq_true', Bool.not_eq_false] at chars
        exact ⟨notEmpty, notDots.1, notDots.2, List.all_eq_true.mp chars⟩

theorem isSegment_of_segmentsProblem {segments : List Text}
    (passes : segmentsProblem first segments = none) : ∀ segment ∈ segments, IsSegment segment := by
  induction segments generalizing first with
  | nil => simp
  | cons segment segments induction =>
      rw [segmentsProblem, Option.or_eq_none_iff] at passes
      intro inside member
      rcases List.mem_cons.mp member with rfl | later
      · exact segmentProblem_eq_none passes.1
      · exact induction passes.2 inside later

theorem IsSegment.isUncut (written : IsSegment segment) : IsUncut segment :=
  fun char member => endsAuthority_of_isSegmentChar (written.chars char member)

theorem IsSegment.isPlain (written : IsSegment segment) : IsPlain segment := by
  have lower : segment.map toAsciiLowercase = segment := by
    rw [List.map_congr_left (g := id), List.map_id]
    intro char member
    exact toAsciiLowercase_of_isSegmentChar (written.chars char member)
  have percent : '%' ∉ segment := by
    intro member
    exact absurd (written.chars '%' member) (by decide)
  refine ⟨?_, ?_, ?_⟩
  · rw [isSingleDot, lower, decide_eq_false_iff_not]
    intro member
    rcases List.mem_pair.mp member with rfl | rfl
    · exact written.notDot rfl
    · exact percent (by simp)
  · rw [isDoubleDot, lower, decide_eq_false_iff_not]
    intro member
    rcases List.mem_cons.mp member with rfl | member
    · exact written.notDots rfl
    · simp only [List.mem_cons, List.not_mem_nil, or_false] at member
      rcases member with rfl | rfl | rfl <;> exact percent (by simp)
  · rw [kept, List.flatMap_congr (g := fun char => [char]), List.flatMap_singleton']
    intro char member
    exact encode_of_isSegmentChar (written.chars char member)

end Segments

section Slashes

theorem withoutEndSlash_snoc (text : Text) : withoutEndSlash (text ++ ['/']) = text := by
  rw [withoutEndSlash, stripSuffix_eq_some_iff.mpr rfl]
  rfl

theorem withoutEndSlash_of_not_endsWith {text : Text} (ending : ¬ ['/'] <:+ text) :
    withoutEndSlash text = text := by
  rw [withoutEndSlash]
  cases stripped : stripSuffix ['/'] text with
  | none => rfl
  | some rest => exact absurd ⟨rest, (stripSuffix_eq_some_iff.mp stripped).symm⟩ ending

theorem withoutEndSlash_append (before : Text) {after : Text} (notEmpty : after ≠ []) :
    withoutEndSlash (before ++ after) = before ++ withoutEndSlash after := by
  by_cases ending : ['/'] <:+ after
  · obtain ⟨rest, rfl⟩ := ending
    rw [← List.append_assoc, withoutEndSlash_snoc, withoutEndSlash_snoc]
  · rw [withoutEndSlash_of_not_endsWith ending, withoutEndSlash_of_not_endsWith]
    rintro ⟨rest, whole⟩
    apply ending
    obtain ⟨init, last, rfl⟩ : ∃ init last, after = init ++ [last] :=
      ⟨_, _, (List.dropLast_append_getLast notEmpty).symm⟩
    rw [← List.append_assoc] at whole
    obtain ⟨-, same⟩ := List.append_inj' whole rfl
    exact ⟨init, by rw [same]⟩

theorem withoutEndSlash_prefix (text : Text) : withoutEndSlash text <+: text := by
  by_cases ending : ['/'] <:+ text
  · obtain ⟨rest, rfl⟩ := ending
    rw [withoutEndSlash_snoc]
    exact List.prefix_append _ _
  · rw [withoutEndSlash_of_not_endsWith ending]

theorem withoutEndSlash_joined {segments : List Text}
    (written : ∀ segment ∈ segments, IsSegment segment) :
    withoutEndSlash (joined '/' segments) = joined '/' segments := by
  apply withoutEndSlash_of_not_endsWith
  rintro ⟨rest, whole⟩
  cases segments using List.reverseRecOn with
  | nil => simp at whole
  | append_singleton before last _ =>
      have lastWritten := written last (by simp)
      obtain ⟨init, char, rfl⟩ : ∃ init char, last = init ++ [char] :=
        ⟨_, _, (List.dropLast_append_getLast lastWritten.notEmpty).symm⟩
      rw [joined_append, joined_cons, joined_nil, List.append_nil] at whole
      have ends : rest ++ ['/'] = (joined '/' before ++ '/' :: init) ++ [char] := by
        simpa using whole
      obtain ⟨-, same⟩ := List.append_inj' ends rfl
      have slash : char = '/' := by simpa using same.symm
      exact absurd (lastWritten.chars char (by simp)) (by rw [slash]; decide)

end Slashes

section Parsing

variable {path : Text} {base : BasePath}

/-- The pieces of a path: segments, and after the last of them an empty one
where the path ends with a slash. -/
structure IsWritten (pieces : List Text) (base : BasePath) : Prop where
  segments : ∃ segments, (pieces = segments ∨ pieces = segments ++ [[]]) ∧
    base.asStr = joined '/' segments ∧ ∀ segment ∈ segments, IsSegment segment

/-- What `parse` accepts, and what it keeps of it. -/
theorem BasePath.parse_ok (parsed : BasePath.parse path = .ok base) :
    ∃ pieces, path = joined '/' pieces ∧ IsWritten pieces base := by
  unfold BasePath.parse at parsed
  split at parsed
  next isRoot =>
    have empty : base.asStr = [] := by
      injection parsed with same
      rw [← same]
      rfl
    simp only [Bool.or_eq_true, decide_eq_true_eq] at isRoot
    rcases isRoot with rfl | rfl
    · exact ⟨[], rfl, [], .inl rfl, empty, by simp⟩
    · exact ⟨[[]], rfl, [], .inr rfl, empty, by simp⟩
  next =>
    split at parsed
    · cases parsed
    next rest stripped =>
      split at parsed
      · cases parsed
      next checked =>
        injection parsed with same
        have kept : base.asStr = withoutEndSlash path := by rw [← same]
        have segments := isSegment_of_segmentsProblem checked
        have text : withoutEndSlash path =
            joined '/' (splitMatches (· == '/') rest) := by
          rw [joined_splitMatches, stripPrefix_eq_some_iff.mp stripped]
          rfl
        by_cases ending : ['/'] <:+ path
        · obtain ⟨before, rfl⟩ := ending
          rw [withoutEndSlash_snoc] at kept text
          refine ⟨splitMatches (· == '/') rest ++ [[]], ?_, _, .inr rfl, by rw [kept, text],
            segments⟩
          rw [joined_append, ← text]
          rfl
        · rw [withoutEndSlash_of_not_endsWith ending] at kept text
          exact ⟨_, text, _, .inl rfl, by rw [kept, text], segments⟩

variable {pieces : List Text}

section

variable (written : IsWritten pieces base)
include written

theorem IsWritten.withoutEndSlash : withoutEndSlash (joined '/' pieces) = base.asStr := by
  obtain ⟨segments, rfl | rfl, kept, every⟩ := written.segments
  · rw [withoutEndSlash_joined every, kept]
  · rw [joined_append, kept]
    exact withoutEndSlash_snoc _

theorem IsWritten.isPlain : ∀ piece ∈ pieces, IsPlain piece := by
  obtain ⟨segments, rfl | rfl, -, every⟩ := written.segments
  · exact fun piece member => (every piece member).isPlain
  · intro piece member
    rcases List.mem_append.mp member with inside | last
    · exact (every piece inside).isPlain
    · rw [List.mem_singleton.mp last]
      exact isPlain_nil

theorem IsWritten.isUncut : ∀ piece ∈ pieces, IsUncut piece := by
  obtain ⟨segments, rfl | rfl, -, every⟩ := written.segments
  · exact fun piece member => (every piece member).isUncut
  · intro piece member
    rcases List.mem_append.mp member with inside | last
    · exact (every piece inside).isUncut
    · rw [List.mem_singleton.mp last]
      simp [IsUncut]

end

theorem IsWritten.head {piece : Text} (written : IsWritten (piece :: pieces) base) :
    IsSegment piece ∨ piece = [] ∧ pieces = [] := by
  obtain ⟨segments, same | same, -, every⟩ := written.segments
  · exact .inl (every piece (by rw [← same]; exact List.mem_cons_self))
  · cases segments with
    | nil => exact .inr (by simpa using same)
    | cons segment segments =>
        obtain ⟨rfl, -⟩ := List.cons.inj same
        exact .inl (every piece List.mem_cons_self)

/-- The text of a base path is the base path's own text. -/
theorem BasePath.parse_asStr (base : BasePath) : BasePath.parse base.asStr = .ok base := by
  obtain ⟨segments, text, checked⟩ := base.formed
  have every := isSegment_of_segmentsProblem checked
  cases segments with
  | nil =>
      have isRoot : base = .root := BasePath.ext text
      rw [isRoot]
      rfl
  | cons segment segments =>
      have kept : withoutEndSlash base.asStr = base.asStr := by
        rw [text, withoutEndSlash_joined every]
      have absent : ∀ inside ∈ segment :: segments, '/' ∉ inside := by
        intro inside member held
        exact absurd ((every inside member).chars '/' held) (by decide)
      have stripped : stripPrefix ['/'] (Base.withoutEndSlash base.asStr) =
          some (segment ++ joined '/' segments) := by
        rw [kept, text, stripPrefix_eq_some_iff]
        rfl
      have notRoot : (decide (base.asStr = []) || decide (base.asStr = ['/'])) = false := by
        have notEmpty := (every segment List.mem_cons_self).notEmpty
        rw [text]
        simp [notEmpty]
      unfold BasePath.parse
      rw [notRoot, if_neg Bool.false_ne_true]
      split
      next found =>
        rw [stripped] at found
        cases found
      next rest found =>
        rw [stripped, Option.some.injEq] at found
        subst found
        split
        next problem found =>
          rw [splitMatches_joined absent, checked] at found
          cases found
        · exact congrArg Except.ok (BasePath.ext kept)

end Parsing

end Crystalline.Base
