import Crystalline.Text.Lines

/-!
# Cutting a source at its frontmatter delimiters

`locate` finds the delimiter lines before any YAML is read.  The four parts of
`splitFrontmatter` concatenate back to the source, and four texts of the right
shape are the parts of their concatenation.
-/

namespace Crystalline

open Text

/-- The span of the YAML between the delimiters and where the body starts. -/
structure Located where
  start : Nat
  stop : Nat
  bodyStart : Nat
  deriving DecidableEq

/-- A line of `---`, whatever carriage returns follow it. -/
def isDelimiter (line : Text) : Bool :=
  trimEndMatches (· == '\r') (withoutNewline line) == "---".toList

/-- No line of the text is a frontmatter delimiter. -/
def Undelimited (text : Text) : Prop :=
  ∀ line ∈ splitInclusive text, isDelimiter line = false

/-- The loop of `locate`: where the first closing delimiter among the lines
from `idx` on starts and ends. -/
def locateClose : List Text → Nat → Option (Nat × Nat)
  | [], _ => none
  | line :: lines, idx =>
      if isDelimiter line then some (idx, idx + line.length)
      else locateClose lines (idx + line.length)

/-- Locate the frontmatter block; `none` is the source's `(false, 0..0, 0)`. -/
def locate (source : Text) : Option Located :=
  match splitInclusive source with
  | [] => none
  | first :: lines =>
      if isDelimiter first then
        (locateClose lines first.length).map fun close =>
          { start := first.length, stop := close.1, bodyStart := close.2 }
      else none

/-- A source cut at its frontmatter delimiters. -/
structure FrontmatterParts where
  /-- The opening `---` line with its line ending. -/
  openLine : Text
  /-- The YAML between the delimiters. -/
  yaml : Text
  /-- The closing `---` line with its line ending, if it has one. -/
  closeLine : Text
  /-- Everything after the closing line. -/
  body : Text
  deriving DecidableEq

namespace FrontmatterParts

/-- The slices of a source at the offsets `locate` found. -/
def slicesAt (source : Text) (located : Located) : FrontmatterParts :=
  { openLine := source.take located.start
    yaml := (source.take located.stop).drop located.start
    closeLine := (source.take located.bodyStart).drop located.stop
    body := source.drop located.bodyStart }

theorem slicesAt_append (openLine yaml closeLine body : Text) :
    slicesAt (openLine ++ (yaml ++ (closeLine ++ body)))
        ⟨openLine.length, openLine.length + yaml.length,
          openLine.length + yaml.length + closeLine.length⟩ =
      ⟨openLine, yaml, closeLine, body⟩ := by
  simp only [slicesAt, mk.injEq]
  refine ⟨List.take_left, ?_, ?_, ?_⟩
  · rw [List.take_length_add_append, List.drop_left, List.take_left]
  · rw [Nat.add_assoc, List.take_length_add_append,
      List.take_length_add_append, List.take_left,
      List.drop_length_add_append, List.drop_left]
  · rw [Nat.add_assoc, List.drop_length_add_append, List.drop_length_add_append, List.drop_left]

/-- The parts put back together. -/
def source (parts : FrontmatterParts) : Text :=
  parts.openLine ++ parts.yaml ++ parts.closeLine ++ parts.body

/-- The shape of the parts of a source: the YAML holds no delimiter line, and
only at the end of the source can the closing one lack its line feed. -/
structure WellCut (parts : FrontmatterParts) : Prop where
  openLine_isLine : IsLine parts.openLine
  openLine_delimits : isDelimiter parts.openLine = true
  yaml_terminated : Terminated parts.yaml
  yaml_undelimited : ∀ line ∈ splitInclusive parts.yaml, isDelimiter line = false
  closeLine_delimits : isDelimiter parts.closeLine = true
  closeLine_ends : IsLine parts.closeLine ∨
    '\n' ∉ parts.closeLine ∧ parts.closeLine ≠ [] ∧ parts.body = []

end FrontmatterParts

open FrontmatterParts (slicesAt slicesAt_append)

def splitFrontmatter (source : Text) : Option FrontmatterParts :=
  (locate source).map (slicesAt source)

variable {lines : List Text}

theorem locateClose_append {close : Text} (idx : Nat)
    (undelimited : ∀ line ∈ lines, isDelimiter line = false) (delimits : isDelimiter close = true)
    (after : List Text) :
    locateClose (lines ++ close :: after) idx =
      some (idx + lines.flatten.length,
        idx + lines.flatten.length + close.length) := by
  induction lines generalizing idx with
  | nil => simp [locateClose, delimits]
  | cons line lines ih =>
      have tail := ih (idx + line.length) fun other member =>
        undelimited other (List.mem_cons_of_mem _ member)
      simp [locateClose, undelimited line (by simp), tail, Nat.add_assoc]

theorem locateClose_eq_some {idx stop next : Nat}
    (found : locateClose lines idx = some (stop, next)) :
    ∃ (before : List Text) (close : Text) (after : List Text),
      lines = before ++ close :: after ∧
        (∀ line ∈ before, isDelimiter line = false) ∧
        isDelimiter close = true ∧
        stop = idx + before.flatten.length ∧ next = stop + close.length := by
  induction lines generalizing idx with
  | nil => simp [locateClose] at found
  | cons line lines ih =>
      rw [locateClose] at found
      split at found
      · next delimits =>
          simp only [Option.some.injEq, Prod.mk.injEq] at found
          obtain ⟨rfl, rfl⟩ := found
          exact ⟨[], line, lines, by simp, by simp, delimits, by simp, rfl⟩
      · next notDelimiter =>
          obtain ⟨before, close, after, rfl, undelimited, delimits, rfl, rfl⟩ :=
            ih found
          refine ⟨line :: before, close, after, by simp, ?_, delimits,
            by simp [Nat.add_assoc], rfl⟩
          intro other member
          rcases List.mem_cons.mp member with rfl | later
          · simpa using notDelimiter
          · exact undelimited other later

theorem locateClose_eq_none {idx : Nat} (absent : locateClose lines idx = none) :
    ∀ line ∈ lines, isDelimiter line = false := by
  induction lines generalizing idx with
  | nil => simp
  | cons line lines ih =>
      rw [locateClose] at absent
      split at absent
      · cases absent
      next notDelimiter =>
        intro other member
        rcases List.mem_cons.mp member with rfl | later
        · simpa using notDelimiter
        · exact ih absent other later

theorem locateClose_of_undelimited (idx : Nat)
    (undelimited : ∀ line ∈ lines, isDelimiter line = false) : locateClose lines idx = none := by
  induction lines generalizing idx with
  | nil => rfl
  | cons line lines ih =>
      have tail := ih (idx + line.length) fun other member =>
        undelimited other (List.mem_cons_of_mem _ member)
      simp [locateClose, undelimited line List.mem_cons_self, tail]

variable {parts : FrontmatterParts}

/-- Where the delimiters of a source of well cut parts stand. -/
theorem FrontmatterParts.WellCut.locate_source (wellCut : parts.WellCut) :
    locate parts.source = some
      ⟨parts.openLine.length, parts.openLine.length + parts.yaml.length,
        parts.openLine.length + parts.yaml.length + parts.closeLine.length⟩ := by
  obtain ⟨openLine, yaml, closeLine, body⟩ := parts
  obtain ⟨openIsLine, openDelimits, terminated, undelimited, closeDelimits,
    closeEnds⟩ := wellCut
  simp only at openIsLine openDelimits terminated undelimited closeDelimits closeEnds
  have closePieces : splitInclusive (closeLine ++ body) =
      closeLine :: splitInclusive body := by
    rcases closeEnds with isLine | ⟨absent, nonempty, rfl⟩
    · exact splitInclusive_line_append isLine body
    · simpa [splitInclusive] using splitInclusive_of_not_mem absent nonempty
  have pieces : splitInclusive
      (openLine ++ (yaml ++ (closeLine ++ body))) =
        openLine :: (splitInclusive yaml ++ closeLine :: splitInclusive body) := by
    rw [splitInclusive_line_append openIsLine, splitInclusive_append terminated, closePieces]
  have closeEq := locateClose_append openLine.length undelimited closeDelimits
    (splitInclusive body)
  simp only [flatten_splitInclusive] at closeEq
  have sourceEq : openLine ++ yaml ++ closeLine ++ body =
      openLine ++ (yaml ++ (closeLine ++ body)) := by simp
  simp only [locate, FrontmatterParts.source, sourceEq, pieces, openDelimits, if_true,
    closeEq, Option.map_some]

/-- The parts are the one well cut way to write the source. -/
theorem splitFrontmatter_eq_some_iff {source : Text} :
    splitFrontmatter source = some parts ↔
      parts.WellCut ∧ source = parts.source := by
  constructor
  · intro found
    obtain ⟨located, locatedEq, rfl⟩ := Option.map_eq_some_iff.mp found
    have whole := flatten_splitInclusive source
    unfold locate at locatedEq
    split at locatedEq
    · simp at locatedEq
    · next first lines pieces =>
        split at locatedEq
        · next firstDelimits =>
            obtain ⟨⟨stop, next⟩, closeEq, rfl⟩ :=
              Option.map_eq_some_iff.mp locatedEq
            obtain ⟨before, close, after, rfl, undelimited, delimits, rfl, rfl⟩ :=
              locateClose_eq_some closeEq
            rw [← List.cons_append] at pieces
            obtain ⟨endedLines, closeEnds⟩ := isLine_of_splitInclusive_eq_append pieces
            have firstLine : IsLine first := endedLines first (by simp)
            have beforeLines : ∀ line ∈ before, IsLine line := fun line member =>
              endedLines line (by simp [member])
            obtain rfl : source =
                first ++ (before.flatten ++ (close ++ after.flatten)) := by
              rw [← whole, pieces]
              simp
            simp only [slicesAt_append]
            refine ⟨⟨firstLine, firstDelimits, terminated_flatten beforeLines,
              ?_, delimits, ?_⟩, by simp [FrontmatterParts.source]⟩
            · rw [splitInclusive_flatten_of_lines beforeLines]
              exact undelimited
            · rcases closeEnds with isLine | ⟨absent, nonempty, rfl⟩
              · exact Or.inl isLine
              · exact Or.inr ⟨absent, nonempty, rfl⟩
        · simp at locatedEq
  · rintro ⟨wellCut, rfl⟩
    have sourceEq : parts.source =
        parts.openLine ++ (parts.yaml ++ (parts.closeLine ++ parts.body)) := by
      simp [FrontmatterParts.source]
    rw [splitFrontmatter, wellCut.locate_source, Option.map_some, sourceEq, slicesAt_append]

end Crystalline
