import Crystalline.Frontmatter.Split
import Crystalline.Text.LineEndings
import Crystalline.Text.Trim
import Crystalline.Text.Joining

/-!
# Sections of a reflection

A section is a `##` heading and its body, with a hidden id on the line under
its heading; the top is the text before the first of them.
-/

namespace Crystalline.Reflection

open Text

/-- The spaces a line starts with. -/
def indentOf (line : Text) : Nat := (line.takeWhile (· == ' ')).length

def stripClosingHashes (text : Text) : Text :=
  let trimmed := trimEnd text
  let without := trimEndMatches (· == '#') trimmed
  if without.length = trimmed.length then trimmed
  else if without = [] then []
  else if endsWith without " ".toList || endsWith without "\t".toList then trimEnd without
  else trimmed

/-- An ATX heading: its level and its text. -/
def parseHeading (line : Text) : Option (Nat × Text) :=
  if 3 < indentOf line then none
  else
    let rest := line.drop (indentOf line)
    let hashes := (rest.takeWhile (· == '#')).length
    if hashes = 0 || 6 < hashes then none
    else
      let after := rest.drop hashes
      if after ≠ [] && !startsWith after " ".toList && !startsWith after "\t".toList then none
      else some (hashes, stripClosingHashes (trim after))

/-- The marker a fence opens or closes with: its character, its length and its
indent. -/
def fenceMarker (line : Text) : Option (Char × Nat × Nat) :=
  if 3 < indentOf line then none
  else
    match line.drop (indentOf line) with
    | [] => none
    | first :: rest =>
        if first ≠ '\x60' && first ≠ '~' then none
        else
          let count := ((first :: rest).takeWhile (· == first)).length
          if count < 3 then none else some (first, count, indentOf line)

/-- The one fenced-code rule: the marker of the fence that is open. -/
abbrev FenceTracker := Option (Char × Nat)

/-- Advance over one line: whether it belongs to fenced code, and the tracker
after it. -/
def FenceTracker.inFence (tracker : FenceTracker) (line : Text) : Bool × FenceTracker :=
  match tracker with
  | none =>
      match fenceMarker line with
      | some (char, count, _) => (true, some (char, count))
      | none => (false, none)
  | some opened =>
      match fenceMarker line with
      | some (char, count, _) =>
          if char = opened.1 && opened.2 ≤ count && trim ((trimStart line).drop count) = [] then
            (true, none)
          else (true, some opened)
      | none => (true, some opened)

/-- One ATX heading of a body, outside fenced code. -/
structure HeadingSpan where
  level : Nat
  text : Text
  /-- Where the heading line starts. -/
  lineStart : Nat
  /-- Where it ends, its line ending included. -/
  lineEnd : Nat
  deriving DecidableEq

/-- The loop of `heading_spans` over the lines from `offset` on. -/
def headingSpansFrom (fence : FenceTracker) (offset : Nat) : List Text → List HeadingSpan
  | [] => []
  | raw :: lines =>
      let line := withoutReturns (withoutNewline raw)
      let walked := fence.inFence line
      let later := headingSpansFrom walked.2 (offset + raw.length) lines
      if walked.1 then later
      else
        match parseHeading line with
        | some heading => ⟨heading.1, heading.2, offset, offset + raw.length⟩ :: later
        | none => later

/-- Where the body of a source starts. -/
def bodyOffset (source : Text) : Nat := ((locate source).map Located.bodyStart).getD 0

/-- Every heading of the body in file order. -/
def headingSpans (source : Text) : List HeadingSpan :=
  headingSpansFrom none (bodyOffset source) (splitInclusive (source.drop (bodyOffset source)))

/-- What a heading span stands for: the line at its offsets is its heading. -/
structure HeadingSpan.In (heading : HeadingSpan) (source : Text) : Prop where
  line : ∃ before raw after, source = before ++ raw ++ after ∧
    heading.lineStart = before.length ∧ heading.lineEnd = before.length + raw.length ∧
    (IsLine raw ∨ '\n' ∉ raw ∧ after = []) ∧
    parseHeading (withoutReturns (withoutNewline raw)) = some (heading.level, heading.text)

theorem headingSpansFrom_in {fence : FenceTracker} {lines : List Text} {before : Text}
    (cut : splitInclusive lines.flatten = lines) :
    ∀ heading ∈ headingSpansFrom fence before.length lines,
      heading.In (before ++ lines.flatten) := by
  induction lines generalizing fence before with
  | nil => simp [headingSpansFrom]
  | cons raw lines induction =>
      have shape := (@isLine_of_splitInclusive_eq_append _ _ [] _ cut).2
      have later : ∀ fence, ∀ heading ∈
          headingSpansFrom fence (before.length + raw.length) lines,
          heading.In (before ++ (raw :: lines).flatten) := by
        intro fence heading member
        rw [← List.length_append] at member
        have tailCut : splitInclusive lines.flatten = lines := by
          rcases shape with ended | ⟨-, -, rfl⟩
          · rw [List.flatten_cons, splitInclusive_line_append ended] at cut
            exact (List.cons.inj cut).2
          · rfl
        have inside := induction tailCut heading member
        rwa [List.append_assoc] at inside
      intro heading member
      rw [headingSpansFrom] at member
      split at member
      · exact later _ heading member
      · split at member
        next found read =>
          rcases List.mem_cons.mp member with rfl | member
          · refine ⟨⟨before, raw, lines.flatten, by simp, rfl, rfl, ?_, read⟩⟩
            rcases shape with ended | ⟨absent, -, rfl⟩
            · exact .inl ended
            · exact .inr ⟨absent, rfl⟩
          · exact later _ heading member
        · exact later _ heading member

/-- Headings stand one after the other. -/
theorem headingSpansFrom_order (fence : FenceTracker) (offset : Nat) (lines : List Text) :
    (∀ heading ∈ headingSpansFrom fence offset lines, offset ≤ heading.lineStart) ∧
      (headingSpansFrom fence offset lines).Pairwise fun earlier later =>
        earlier.lineEnd ≤ later.lineStart := by
  induction lines generalizing fence offset with
  | nil => simp [headingSpansFrom]
  | cons raw lines induction =>
      have later := fun fence => induction fence (offset + raw.length)
      have behind : ∀ fence, ∀ heading ∈ headingSpansFrom fence (offset + raw.length) lines,
          offset ≤ heading.lineStart := by
        intro fence heading member
        have after := (later fence).1 heading member
        omega
      rw [headingSpansFrom]
      split
      · exact ⟨behind _, (later _).2⟩
      · split
        next found read =>
          refine ⟨?_, List.pairwise_cons.mpr ⟨(later _).1, (later _).2⟩⟩
          intro heading member
          rcases List.mem_cons.mp member with rfl | member
          · exact Nat.le_refl _
          · exact behind _ heading member
        · exact ⟨behind _, (later _).2⟩

theorem headingSpans_in (source : Text) : ∀ heading ∈ headingSpans source, heading.In source := by
  intro heading member
  by_cases inside : bodyOffset source ≤ source.length
  · have start : (source.take (bodyOffset source)).length = bodyOffset source := by
      rw [List.length_take, Nat.min_eq_left inside]
    rw [headingSpans, ← start] at member
    have spans := headingSpansFrom_in (by rw [flatten_splitInclusive]) heading member
    rwa [flatten_splitInclusive, start, List.take_append_drop] at spans
  · rw [headingSpans, List.drop_eq_nil_of_le (by omega)] at member
    cases member

/-- The pseudo-section holding the text before the first `##`. -/
def topSection : Text := "_top".toList

structure Section where
  /-- The id under the heading; `topSection` for the top. -/
  id : Option Text
  heading : Text
  /-- One-based file line of the heading, or of the first body line. -/
  line : Nat
  /-- The heading line and the body, without the id line. -/
  text : Text
  deriving DecidableEq

/-- A lower-case hexadecimal digit. -/
def isHexDigit (char : Char) : Bool :=
  isAsciiDigit char || 0x61 ≤ char.toNat && char.toNat ≤ 0x66

/-- 4 to 16 lower-case hexadecimal digits. -/
def isSectionId (id : Text) : Bool :=
  4 ≤ id.length && id.length ≤ 16 && id.all isHexDigit

/-- What an id line starts with. -/
def idOpen : Text := "<!-- r:".toList

/-- What an id line ends with. -/
def idClose : Text := " -->".toList

/-- The id on an id line. -/
def parseIdLine (line : Text) : Option Text :=
  ((stripPrefix idOpen (trim line)).bind (stripSuffix idClose)).bind fun id =>
    if isSectionId id then some id else none

/-- The id line for `id`, without a line ending. -/
def idLine (id : Text) : Text := idOpen ++ id ++ idClose

/-- Trailing whitespace goes from each line, and trailing blank lines go. -/
def normalizeSectionText (text : Text) : Text :=
  joinLines (((splitNewline text).map trimEnd).rdropWhile List.isEmpty)

/-- `section_hash`, over the SHA-256 it takes of the normalized text. -/
def sectionHash (sha256Hex : Text → Text) (text : Text) : Text :=
  sha256Hex (normalizeSectionText text)

/-- The one-based line the character at `offset` is on. -/
def lineAt (source : Text) (offset : Nat) : Nat := (source.take offset).count '\n' + 1

/-- The `##` headings outside fences, in order. -/
def levelTwo (source : Text) : List HeadingSpan :=
  (headingSpans source).filter fun heading => heading.level = 2

/-- The id on the line right under a heading, and where the line after that one
starts. -/
def idUnder (source : Text) (heading : HeadingSpan) : Option (Text × Nat) :=
  let rest := source.drop heading.lineEnd
  let length := ((find ['\n'] rest).map (· + 1)).getD rest.length
  let bare := trimEndMatches (fun char => char == '\n' || char == '\r') (rest.take length)
  (parseIdLine bare).map fun id => (id, heading.lineEnd + length)

/-- The lines of a range.  A range that stops at a heading ends in a line break
that is no line of its own. -/
def linesOf (source : Text) (start stop : Nat) (stopsAtHeading : Bool) : List Text :=
  let lines := (splitNewline (slice source start stop)).map withoutReturns
  if stopsAtHeading then lines.dropLast else lines

/-- The section a heading opens, up to the next one. -/
def sectionAt (source : Text) (heading : HeadingSpan) (next : Option HeadingSpan) : Section :=
  let stop := (next.map HeadingSpan.lineStart).getD source.length
  let lines := linesOf source heading.lineStart stop next.isSome
  let id := (idUnder source heading).map Prod.fst
  { id
    heading := trim heading.text
    line := lineAt source heading.lineStart
    text := joinLines (if id.isSome then lines.eraseIdx 1 else lines) }

def sectionsFrom (source : Text) : List HeadingSpan → List Section
  | [] => []
  | heading :: rest => sectionAt source heading rest.head? :: sectionsFrom source rest

/-- The sections of a reflection, the top first. -/
def splitSections (source : Text) : List Section :=
  let headings := levelTwo source
  let first := (headings.head?.map HeadingSpan.lineStart).getD source.length
  { id := some topSection
    heading := []
    line := lineAt source (bodyOffset source)
    text := joinLines (linesOf source (bodyOffset source) first !headings.isEmpty) } ::
    sectionsFrom source headings

section Ids

variable {id : Text}

theorem parseIdLine_idLine (valid : isSectionId id = true) :
    parseIdLine (idLine id) = some id := by
  have trimmed : IsTrimmed (idLine id) := by
    refine ⟨?_, ?_⟩
    · intro char head
      cases head
      decide
    · intro char last
      have ends : idClose = " --".toList ++ ['>'] := by decide
      rw [idLine, ends, ← List.append_assoc, List.getLast?_concat, Option.some.injEq] at last
      rw [← last]
      decide
  have stripped : stripSuffix idClose (id ++ idClose) = some id :=
    stripSuffix_eq_some_iff.mpr rfl
  rw [parseIdLine, trimmed.trim_eq, idLine, List.append_assoc, stripPrefix_append,
    Option.bind_some, stripped, Option.bind_some, if_pos valid]

theorem isSectionId_of_parseIdLine {line : Text} (read : parseIdLine line = some id) :
    isSectionId id = true := by
  obtain ⟨found, -, valid⟩ := Option.bind_eq_some_iff.mp read
  split at valid
  next accepted =>
    cases valid
    exact accepted
  · cases valid

theorem topSection_ne (valid : isSectionId id = true) : id ≠ topSection := by
  rintro rfl
  exact absurd valid (by decide)

theorem parseIdLine_nil : parseIdLine [] = none := by decide

end Ids

section Texts

variable {source : Text} {heading : HeadingSpan} {next : Option HeadingSpan}

/-- A line as a section holds it: without line feed and ending in no carriage
return. -/
structure IsCleanLine (line : Text) : Prop where
  newline : '\n' ∉ line
  returns : withoutReturns line = line

/-- The lines of a section text: a `##` heading and clean lines under it. -/
structure IsSectionText (text : Text) : Prop where
  lines : ∃ first rest, text = joinLines (first :: rest) ∧
    ((parseHeading first).map Prod.fst = some 2) ∧
    ∀ line ∈ first :: rest, IsCleanLine line

theorem isCleanLine_withoutReturns {line : Text} (newline : '\n' ∉ line) :
    IsCleanLine (withoutReturns line) :=
  ⟨fun member => newline ((withoutReturns_front line).subset member), withoutReturns_idem line⟩

theorem linesOf_clean (start stop : Nat) (stopsAtHeading : Bool) :
    ∀ line ∈ linesOf source start stop stopsAtHeading, IsCleanLine line := by
  have every : ∀ line ∈ (splitNewline (slice source start stop)).map withoutReturns,
      IsCleanLine line := by
    intro line member
    obtain ⟨raw, rawMember, rfl⟩ := List.mem_map.mp member
    exact isCleanLine_withoutReturns (newline_notMem_of_mem_splitNewline rawMember)
  intro line member
  rw [linesOf] at member
  split at member
  · exact every line (List.dropLast_subset _ member)
  · exact every line member

theorem parseHeading_nil : parseHeading [] = none := by decide

theorem HeadingSpan.In.ended_of_later {after : HeadingSpan} (later : after.In source)
    (order : source.length ≤ after.lineStart) : False := by
  obtain ⟨before, raw, rest, whole, start, -, -, read⟩ := later.line
  have lengths := congrArg List.length whole
  rw [List.length_append, List.length_append] at lengths
  have empty : raw = [] := List.eq_nil_of_length_eq_zero (by omega)
  rw [empty] at read
  have nothing : parseHeading (withoutReturns (withoutNewline [])) = none := by decide
  rw [nothing] at read
  cases read

/-- The first line of a section is its heading. -/
theorem linesOf_heading (inside : heading.In source)
    (later : ∀ after, next = some after → after.In source ∧
      heading.lineEnd ≤ after.lineStart) :
    ∃ first rest, linesOf source heading.lineStart
        ((next.map HeadingSpan.lineStart).getD source.length) next.isSome = first :: rest ∧
      parseHeading first = some (heading.level, heading.text) := by
  obtain ⟨before, raw, after, whole, start, stop, shape, read⟩ := inside.line
  have behind : before.length + raw.length ≤
      (next.map HeadingSpan.lineStart).getD source.length := by
    cases next with
    | none =>
        rw [whole]
        simp
    | some other =>
        have order := (later other rfl).2
        rwa [stop] at order
  obtain ⟨more, cut⟩ : ∃ more, slice source heading.lineStart
      ((next.map HeadingSpan.lineStart).getD source.length) = raw ++ more := by
    obtain ⟨extra, reach⟩ := Nat.exists_eq_add_of_le behind
    refine ⟨after.take extra, ?_⟩
    rw [start, slice, reach, whole, List.append_assoc, Nat.add_assoc,
      List.take_length_add_append, List.take_length_add_append, List.drop_left]
  rw [linesOf, cut]
  rcases shape with ⟨body, absent, rfl⟩ | ⟨absent, rfl⟩
  · rw [withoutNewline_snoc] at read
    rw [List.append_assoc, List.singleton_append, splitNewline_cons_line absent, List.map_cons]
    split
    · have nonempty : (splitNewline more).map withoutReturns ≠ [] := by
        simp [splitNewline_ne_nil]
      exact ⟨_, _, List.dropLast_cons_of_ne_nil nonempty, read⟩
    · exact ⟨_, _, rfl, read⟩
  · cases next with
    | none =>
        rw [withoutNewline_of_not_mem absent] at read
        have last : more = [] := by
          rw [Option.map_none, Option.getD_none, whole, List.append_nil, start, slice,
            List.take_length, List.drop_left] at cut
          simpa using cut
        rw [last, List.append_nil, splitNewline_of_not_mem absent]
        exact ⟨_, _, rfl, read⟩
    | some other =>
        obtain ⟨found, order⟩ := later other rfl
        refine (found.ended_of_later ?_).elim
        rw [whole]
        simpa [stop] using order

theorem isSectionText_sectionAt (inside : heading.In source) (level : heading.level = 2)
    (later : ∀ after, next = some after → after.In source ∧
      heading.lineEnd ≤ after.lineStart) :
    IsSectionText (sectionAt source heading next).text := by
  obtain ⟨first, rest, lines, read⟩ := linesOf_heading inside later
  have clean := @linesOf_clean source heading.lineStart
    ((next.map HeadingSpan.lineStart).getD source.length) next.isSome
  rw [lines] at clean
  have read : (parseHeading first).map Prod.fst = some 2 := by rw [read, level]; rfl
  rw [sectionAt, lines]
  dsimp only
  split
  · refine ⟨first, rest.eraseIdx 0, rfl, read, ?_⟩
    intro line member
    rcases List.mem_cons.mp member with rfl | member
    · exact clean _ List.mem_cons_self
    · exact clean line (List.mem_cons_of_mem _ (List.mem_of_mem_eraseIdx member))
  · exact ⟨first, rest, rfl, read, clean⟩

theorem sectionAt_id {id : Text} (carries : (sectionAt source heading next).id = some id) :
    isSectionId id = true := by
  obtain ⟨found, under, rfl⟩ := Option.map_eq_some_iff.mp carries
  obtain ⟨read, parsed, rfl⟩ := Option.map_eq_some_iff.mp under
  exact isSectionId_of_parseIdLine parsed

theorem levelTwo_in (source : Text) :
    (∀ heading ∈ levelTwo source, heading.In source ∧ heading.level = 2) ∧
      (levelTwo source).Pairwise fun earlier later => earlier.lineEnd ≤ later.lineStart := by
  refine ⟨?_, (headingSpansFrom_order _ _ _).2.filter _⟩
  intro heading member
  obtain ⟨found, level⟩ := List.mem_filter.mp member
  exact ⟨headingSpans_in source heading found, by simpa using level⟩

theorem sectionsFrom_text {headings : List HeadingSpan}
    (found : ∀ heading ∈ headings, heading.In source ∧ heading.level = 2)
    (order : headings.Pairwise fun earlier later => earlier.lineEnd ≤ later.lineStart) :
    ∀ part ∈ sectionsFrom source headings, IsSectionText part.text ∧
      ∀ id, part.id = some id → isSectionId id = true := by
  induction headings with
  | nil => simp [sectionsFrom]
  | cons heading headings induction =>
      obtain ⟨before, order⟩ := List.pairwise_cons.mp order
      intro part member
      rcases List.mem_cons.mp member with rfl | member
      · obtain ⟨inside, level⟩ := found heading List.mem_cons_self
        refine ⟨isSectionText_sectionAt inside level ?_, fun id => sectionAt_id⟩
        intro after next
        have later := List.mem_of_mem_head? next
        exact ⟨(found after (List.mem_cons_of_mem _ later)).1, before after later⟩
      · exact induction (fun other later => found other (List.mem_cons_of_mem _ later)) order
          part member

/-- What `split_sections` answers: the top with clean lines, then sections with
a heading each. -/
theorem splitSections_shape (source : Text) :
    ∃ top sections, splitSections source = top :: sections ∧ top.id = some topSection ∧
      (∃ lines, top.text = joinLines lines ∧ ∀ line ∈ lines, IsCleanLine line) ∧
      ∀ part ∈ sections, IsSectionText part.text ∧
        ∀ id, part.id = some id → isSectionId id = true := by
  obtain ⟨found, order⟩ := levelTwo_in source
  exact ⟨_, _, rfl, rfl, ⟨_, rfl, linesOf_clean _ _ _⟩, sectionsFrom_text found order⟩

end Texts

end Crystalline.Reflection
