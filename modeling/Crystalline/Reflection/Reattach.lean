import Crystalline.Keyed.HandOut
import Crystalline.Reflection.IdEdits

/-!
# Id lines through a section edit

An edit runs on the page without its id lines, and each heading gets its id back
by its text.  Both walks are edits of the id lines; the second hands the ids of
the page before out to the headings of the page after.
-/

namespace Crystalline.Reflection

open Text Keyed

/-- `eq_ignore_ascii_case`. -/
def eqIgnoreAsciiCase (left right : Text) : Bool :=
  left.map Char.toLower = right.map Char.toLower

/-- A heading and its index in the document. -/
abbrev Target := HeadingSpan × Nat

/-- `str::split` on a text; a text has fewer cuts than characters. -/
def splitPattern (pattern : Text) : Nat → Text → List Text
  | 0, text => [text]
  | fuel + 1, text =>
      match splitOnce pattern text with
      | none => [text]
      | some (before, after) => before :: splitPattern pattern fuel after

def parseSegment (segment : Text) : Option Nat × Text :=
  let segment := trim segment
  let hashes := (segment.takeWhile (· == '#')).length
  if 1 ≤ hashes && hashes ≤ 6 then (some hashes, trim (segment.drop hashes))
  else (none, segment)

def headingMatches (heading : HeadingSpan) (segment : Option Nat × Text) : Bool :=
  (segment.1.all fun level => heading.level = level) &&
    (heading.text = segment.2 || eqIgnoreAsciiCase heading.text segment.2)

/-- The index of the heading that ends the section of a heading. -/
def sectionEndIndex (headings : List HeadingSpan) (target : Target) : Nat :=
  target.2 + 1 +
    (headings.drop (target.2 + 1)).findIdx fun heading => heading.level ≤ target.1.level

/-- The loop over the segments of a path, each looked up in the section the one
before it found. -/
def resolveSegments (headings : List HeadingSpan) :
    List (Option Nat × Text) → Nat → Nat → Option Target → Option Target
  | [], _, _, found => found
  | segment :: segments, start, stop, _ =>
      match ((headings.zipIdx.take stop).drop start).find?
          fun target => headingMatches target.1 segment with
      | none => none
      | some target =>
          resolveSegments headings segments (target.2 + 1) (sectionEndIndex headings target)
            (some target)

/-- The whole text as one heading first, then as a path. -/
def resolvePath (headings : List HeadingSpan) (path : Text) : Option Target :=
  (headings.zipIdx.find? fun target => headingMatches target.1 (parseSegment path)).or
    (resolveSegments headings
      ((splitPattern " > ".toList path.length path).map parseSegment) 0 headings.length none)

inductive EditError where
  /-- No heading is at the path; the headings there are. -/
  | sectionNotFound (path : Text) (headings : List Text)
  deriving DecidableEq

def notFound (headings : List HeadingSpan) (path : Text) : EditError :=
  .sectionNotFound path
    (headings.map fun heading =>
      List.replicate heading.level '#' ++ ' ' :: heading.text)

def resolveSection (source path : Text) : Except EditError Target :=
  match resolvePath (headingSpans source) path with
  | some target => .ok target
  | none => .error (notFound (headingSpans source) path)

/-- A text past its leading blank lines. -/
def skipBlankLines (text : Text) : Text :=
  ((splitInclusive text).dropWhile fun line => trim line = []).flatten

/-- The content without a repeat of the target's own heading at its top, and the
heading when it was dropped. -/
def stripRepeatedHeading (target : HeadingSpan) (content : Text) : Text × Option Text :=
  let rest := skipBlankLines content
  let parts := (splitOnce ['\n'] rest).getD (rest, [])
  match parseHeading (withoutReturns parts.1) with
  | none => (content, none)
  | some (level, text) =>
      if level ≠ target.level || !(text = target.text || eqIgnoreAsciiCase text target.text) then
        (content, none)
      else
        (skipBlankLines parts.2, some (List.replicate level '#' ++ ' ' :: target.text))

/-- Whether the content opens with a heading that closes the target's section. -/
def opensWithClosingHeading (target : HeadingSpan) (content : Text) : Bool :=
  let first := (splitNewline (skipBlankLines content)).headD []
  (parseHeading (withoutReturns first)).any fun heading => heading.1 ≤ target.level

/-- A marker of a list item that may interrupt a paragraph. -/
def startsListItem (trimmed : Text) : Bool :=
  let gap := fun rest : Text =>
    rest = [] || startsWith rest " ".toList || startsWith rest "\t".toList
  match trimmed with
  | [] => false
  | first :: rest =>
      if first = '-' || first = '*' || first = '+' then gap rest
      else
        let digits := trimmed.takeWhile isAsciiDigit
        let after := trimmed.drop digits.length
        1 ≤ digits.length && digits.length ≤ 9 &&
          digits.foldl (fun number digit => number * 10 + (digit.toNat - 0x30)) 0 = 1 &&
          (after.head?.any fun mark => mark = '.' || mark = ')') && gap after.tail

def isThematicBreak (trimmed : Text) : Bool :=
  match trimmed with
  | [] => false
  | first :: _ =>
      (first = '-' || first = '*' || first = '_') &&
        (trimmed.all fun char => char = first || char = ' ' || char = '\t') &&
        3 ≤ trimmed.count first

/-- Whether a line under a bullet is read as more of it. -/
def continuesBullet (line : Text) : Bool :=
  let trimmed := trim line
  if trimmed = [] || (parseHeading line).isSome then false
  else if (fenceMarker trimmed).isSome then false
  else
    !(startsListItem trimmed || startsWith trimmed ">".toList || startsWith trimmed "<".toList ||
      startsWith trimmed "|".toList || isThematicBreak trimmed)

/-- A region in place of the source between two offsets. -/
structure Splice where
  start : Nat
  stop : Nat
  region : Text
  deriving DecidableEq

def Splice.apply (splice : Splice) (source : Text) : Text :=
  source.take splice.start ++ splice.region ++ source.drop splice.stop

/-- `str::trim_matches('\n')`. -/
def trimNewlines (text : Text) : Text :=
  trimEndMatches (· == '\n') (trimStartMatches (· == '\n') text)

structure SectionEdit where
  text : Text
  /-- The target's heading, when the content repeated it. -/
  headingStripped : Option Text
  /-- Whether the content went after the whole section. -/
  placedAfterSection : Bool
  deriving DecidableEq

inductive SectionOp where
  | replace (includeSubsections : Bool)
  | insertBefore
  | insertAfter
  deriving DecidableEq

section Edits

variable (source : Text) (headings : List HeadingSpan) (target : Target) (content : Text)

/-- Where a heading starts, or where the source ends. -/
def startOf (index : Nat) : Nat := (headings[index]?.map HeadingSpan.lineStart).getD source.length

/-- The region of a replaced body. -/
def replaceRegion (body : Text) (last : Bool) : Text :=
  if body = [] then ['\n']
  else if last then '\n' :: (body ++ ['\n'])
  else '\n' :: (body ++ ['\n', '\n'])

/-- What `replace_section_at` puts where. -/
def replaceSplice (includeSubsections : Bool) : Splice :=
  let sectionEnd := sectionEndIndex headings target
  let boundary :=
    if includeSubsections then startOf source headings sectionEnd
    else if target.2 + 1 < sectionEnd then startOf source headings (target.2 + 1)
    else startOf source headings sectionEnd
  let body := trimNewlines (stripRepeatedHeading target.1 content).1
  { start := target.1.lineEnd
    stop := boundary
    region := replaceRegion body !(boundary < source.length) }

/-- What `insert_before_section_at` puts where. -/
def insertBeforeSplice : Splice :=
  ⟨target.1.lineStart, target.1.lineStart, trimNewlines content ++ ['\n', '\n']⟩

/-- What `insert_after_section_at` puts where. -/
def insertAfterSplice : Splice :=
  let content := (stripRepeatedHeading target.1 content).1
  if opensWithClosingHeading target.1 content then
    let stop := startOf source headings (sectionEndIndex headings target)
    let before := source.take stop
    let lead :=
      if endsWith before ['\n', '\n'] then []
      else if endsWith before ['\n'] then ['\n']
      else ['\n', '\n']
    let tail := if stop < source.length then ['\n'] else []
    ⟨stop, stop, lead ++ (trimNewlines content ++ '\n' :: tail)⟩
  else
    -- Prose right under the heading is kept apart from an inserted bullet.
    let next := (splitNewline (source.drop target.1.lineEnd)).headD []
    let gap := if continuesBullet (withoutReturns next) then ['\n'] else []
    ⟨target.1.lineEnd, target.1.lineEnd, '\n' :: (trimNewlines content ++ '\n' :: gap)⟩

def sectionSplice (op : SectionOp) : Splice :=
  match op with
  | .replace includeSubsections =>
      replaceSplice source headings target content includeSubsections
  | .insertBefore => insertBeforeSplice target content
  | .insertAfter => insertAfterSplice source headings target content

end Edits

/-- One section edit, at a heading of the source. -/
def applySectionOpAt (source : Text) (op : SectionOp) (target : Target) (content : Text) :
    SectionEdit :=
  let text := (sectionSplice source (headingSpans source) target content op).apply source
  let stripped := stripRepeatedHeading target.1 content
  match op with
  | .replace _ => ⟨text, stripped.2, false⟩
  | .insertBefore => ⟨text, none, false⟩
  | .insertAfter => ⟨text, stripped.2, opensWithClosingHeading target.1 stripped.1⟩

section Loops

variable (source : Text)

/-- The loop of `without_id_lines`. -/
def withoutIdLinesFrom (copied : Nat) : List HeadingSpan → Text
  | [] => source.drop copied
  | heading :: headings =>
      match idUnder source heading with
      | some (_, next) =>
          slice source copied heading.lineEnd ++ withoutIdLinesFrom next headings
      | none => withoutIdLinesFrom copied headings

/-- A page without the id lines under its `##` headings. -/
def withoutIdLines : Text := withoutIdLinesFrom source 0 (levelTwo source)

/-- The loop of `reattach_ids`; `spare` are the headings of the page before whose
ids are not given back yet. -/
def reattachIdsFrom (spare : List (Text × Option Text)) (copied : Nat) :
    List HeadingSpan → Text
  | [] => source.drop copied
  | heading :: headings =>
      if (idUnder source heading).isSome then reattachIdsFrom spare copied headings
      else
        match takeFirst (trim heading.text) spare with
        | none => reattachIdsFrom spare copied headings
        | some (none, spare) => reattachIdsFrom spare copied headings
        | some (some id, spare) =>
            headingWithId source copied heading id ++
              reattachIdsFrom spare heading.lineEnd headings

end Loops

/-- The ids a page carries. -/
def presentIds (source : Text) : List Text :=
  (levelTwo source).filterMap fun heading => (idUnder source heading).map Prod.fst

/-- The headings of the page before, without those of no text and those whose id
the page after carries already. -/
def spareIds (incoming previous : Text) : List (Text × Option Text) :=
  (((splitSections previous).filter fun part => part.heading ≠ []).map fun part =>
    (part.heading, part.id)).filter fun entry => entry.2.all fun id => id ∉ presentIds incoming

/-- `reattach_ids`. -/
def reattachIds (incoming previous : Text) : Text :=
  reattachIdsFrom incoming (spareIds incoming previous) 0 (levelTwo incoming)

/-- The `##` section of an id, among the headings of the page without id lines. -/
def sectionIndexById (source bare text : Text) : Option Target :=
  let wanted := trim text
  let wanted := (stripPrefix "r:".toList wanted).getD wanted
  ((levelTwo source).findIdx? fun heading =>
    (idUnder source heading).map Prod.fst = some wanted).bind fun place =>
      ((headingSpans bare).zipIdx.filter fun target => target.1.level = 2)[place]?

/-- The heading an edit addresses: by its path, else by its id. -/
def targetOf (source path : Text) : Except EditError Target :=
  let bare := withoutIdLines source
  match resolveSection bare path with
  | .ok target => .ok target
  | .error miss =>
      match sectionIndexById source bare path with
      | some target => .ok target
      | none => .error miss

/-- `edit_section`. -/
def editSection (source : Text) (op : SectionOp) (path content : Text) :
    Except EditError SectionEdit :=
  match targetOf source path with
  | .error miss => .error miss
  | .ok target =>
      let edit := applySectionOpAt (withoutIdLines source) op target content
      .ok { edit with text := reattachIds edit.text source }

/-- Every id line goes. -/
def lifting : IdPolicy Unit := fun _ _ under =>
  (if under.isSome then .drop else .keep, ())

/-- A heading without an id gets the first spare one of its text. -/
def reattaching : IdPolicy (List (Text × Option Text)) := fun spare text under =>
  if under.isSome then (.keep, spare)
  else
    match takeFirst text spare with
    | none => (.keep, spare)
    | some (none, spare) => (.keep, spare)
    | some (some id, spare) => (.write id, spare)

theorem withoutIdLines_eq (source : Text) : withoutIdLines source = editIds lifting source () := by
  have walk : ∀ headings copied, withoutIdLinesFrom source copied headings =
      editIdsFrom lifting source () copied headings := by
    intro headings
    induction headings with
    | nil =>
        intro copied
        rfl
    | cons heading headings induction =>
        intro copied
        cases under : idUnder source heading with
        | none => simp [withoutIdLinesFrom, editIdsFrom, lifting, under, induction]
        | some found => simp [withoutIdLinesFrom, editIdsFrom, lifting, under, induction]
  exact walk _ _

theorem reattachIds_eq (incoming previous : Text) :
    reattachIds incoming previous = editIds reattaching incoming (spareIds incoming previous) := by
  have walk : ∀ headings spare copied, reattachIdsFrom incoming spare copied headings =
      editIdsFrom reattaching incoming spare copied headings := by
    intro headings
    induction headings with
    | nil =>
        intro spare copied
        rfl
    | cons heading headings induction =>
        intro spare copied
        cases under : idUnder incoming heading with
        | some found => simp [reattachIdsFrom, editIdsFrom, reattaching, under, induction]
        | none =>
            cases taken : takeFirst (trim heading.text) spare with
            | none => simp [reattachIdsFrom, editIdsFrom, reattaching, under, taken, induction]
            | some found =>
                obtain ⟨id, rest⟩ := found
                cases id with
                | none =>
                    simp [reattachIdsFrom, editIdsFrom, reattaching, under, taken, induction]
                | some id =>
                    simp [reattachIdsFrom, editIdsFrom, reattaching, under, taken, induction]
  exact walk _ _ _

section Carried

variable {source incoming previous : Text}

theorem sound_lifting : lifting.Sound fun _ => True := by
  constructor
  · intro state text under id later _ decided
    cases under <;> simp [lifting] at decided
  · intro _ _ _ _ _ _ _
    trivial

theorem headingIds_withoutIdLines (source : Text) :
    (headingIds (withoutIdLines source)).map Prod.fst = (headingIds source).map Prod.fst := by
  rw [withoutIdLines_eq]
  exact headingIds_texts_editIds sound_lifting trivial

/-- The ids that are spare are ids a heading can carry. -/
def SpareIds (spare : List (Text × Option Text)) : Prop :=
  ∀ entry ∈ spare, ∀ id, entry.2 = some id → isSectionId id = true

theorem sound_reattaching : reattaching.Sound SpareIds := by
  have taken : ∀ {spare text id rest}, SpareIds spare → takeFirst text spare = some (id, rest) →
      (∀ found, id = some found → isSectionId found = true) ∧ SpareIds rest := by
    intro spare text id rest valid taken
    have perm := perm_of_takeFirst taken
    constructor
    · intro found same
      exact valid (text, id) (perm.mem_iff.mpr List.mem_cons_self) found same
    · intro entry member
      exact valid entry (perm.mem_iff.mpr (List.mem_cons_of_mem _ member))
  constructor
  · intro spare text under id later valid decided
    rw [reattaching] at decided
    split at decided
    · cases decided
    · cases found : takeFirst text spare with
      | none =>
          rw [found] at decided
          cases decided
      | some first =>
          obtain ⟨own, rest⟩ := first
          rw [found] at decided
          cases own with
          | none => cases decided
          | some own =>
              cases decided
              exact (taken valid found).1 id rfl
  · intro spare text under edit later valid decided
    rw [reattaching] at decided
    split at decided
    · cases decided
      exact valid
    · cases found : takeFirst text spare with
      | none =>
          rw [found] at decided
          cases decided
          exact valid
      | some first =>
          obtain ⟨own, rest⟩ := first
          rw [found] at decided
          cases own with
          | none =>
              cases decided
              exact (taken valid found).2
          | some own =>
              cases decided
              exact (taken valid found).2

theorem reattaching_keeps (spare : List (Text × Option Text)) (text : Text)
    (under : Option Text) : (reattaching spare text under).1 ≠ .drop := by
  rw [reattaching]
  split
  · exact fun dropped => by cases dropped
  · cases takeFirst text spare with
    | none => exact fun dropped => by cases dropped
    | some found =>
        obtain ⟨own, rest⟩ := found
        cases own <;> exact fun dropped => by cases dropped

theorem editedIds_reattaching (spare headings : List (Text × Option Text)) :
    (editedIds reattaching spare headings).map Prod.snd = handOut spare headings := by
  induction headings generalizing spare with
  | nil => rfl
  | cons heading headings induction =>
      obtain ⟨text, under⟩ := heading
      cases under with
      | some id => simp [editedIds, reattaching, induction]
      | none =>
          cases taken : takeFirst text spare with
          | none => simp [editedIds, reattaching, taken, induction, handOut_absent taken]
          | some found =>
              obtain ⟨own, rest⟩ := found
              cases own with
              | none => simp [editedIds, reattaching, taken, induction, handOut_taken taken]
              | some own => simp [editedIds, reattaching, taken, induction, handOut_taken taken]

theorem presentIds_eq (source : Text) :
    presentIds source = (headingIds source).filterMap Prod.snd := by
  rw [presentIds, headingIds, List.filterMap_map]
  rfl

theorem map_sectionsFrom (source : Text) (headings : List HeadingSpan) :
    (sectionsFrom source headings).map (fun part => (part.heading, part.id)) =
      headings.map fun heading =>
        (trim heading.text, (idUnder source heading).map Prod.fst) := by
  induction headings with
  | nil => rfl
  | cons heading headings induction =>
      rw [sectionsFrom, List.map_cons, List.map_cons, induction]
      rfl

/-- An entry of the page before that is spare: it has a text, and its id is not on
the page after. -/
def offered (incoming : Text) (entry : Text × Option Text) : Bool :=
  decide (entry.1 ≠ []) && entry.2.all fun id => id ∉ presentIds incoming

theorem spareIds_eq (incoming previous : Text) :
    spareIds incoming previous = (headingIds previous).filter (offered incoming) := by
  have shape : ((splitSections previous).filter fun part => part.heading ≠ []) =
      (sectionsFrom previous (levelTwo previous)).filter fun part => part.heading ≠ [] := rfl
  have texts : (((sectionsFrom previous (levelTwo previous)).filter fun part =>
      part.heading ≠ []).map fun part => (part.heading, part.id)) =
        (headingIds previous).filter fun entry => entry.1 ≠ [] := by
    rw [headingIds, ← map_sectionsFrom, List.filter_map]
    rfl
  rw [spareIds, shape, texts, List.filter_filter]
  apply List.filter_congr
  intro entry _
  rw [offered, Bool.and_comm]

theorem spareIds_valid (incoming previous : Text) : SpareIds (spareIds incoming previous) := by
  intro entry member id same
  rw [spareIds_eq] at member
  obtain ⟨heading, -, rfl⟩ := List.mem_map.mp (List.mem_filter.mp member).1
  obtain ⟨found, under, rfl⟩ := Option.map_eq_some_iff.mp same
  obtain ⟨read, parsed, rfl⟩ := Option.map_eq_some_iff.mp under
  exact isSectionId_of_parseIdLine parsed

theorem headingIds_reattachIds (incoming previous : Text) :
    (headingIds (reattachIds incoming previous)).map Prod.snd =
      handOut ((headingIds previous).filter (offered incoming)) (headingIds incoming) := by
  rw [reattachIds_eq, headingIds_editIds sound_reattaching (spareIds_valid incoming previous)
    reattaching_keeps, editedIds_reattaching, spareIds_eq]

end Carried

end Crystalline.Reflection
