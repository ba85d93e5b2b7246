import Mathlib.Data.List.Sort
import Crystalline.Reflection.Sections

/-!
# Entries that are read back

A baseline file cuts an entry wherever a `##` heading stands directly over an
id line.  An entry without such a pair below its own heading is read back, but
for the blank lines at its end; an entry with one is cut there.
-/

namespace Crystalline.Reflection

open Text

/-- An id and the text kept under it. -/
abbrev Kept := Text × Text

/-- The marker that opens the top block of a baseline file. -/
def topMarker : Text := idLine topSection

/-- The section an entry line opens: a `##` heading directly followed by an id
line. -/
def entryStart (line next : Text) : Option Text :=
  (parseHeading line).bind fun heading =>
    (parseIdLine next).bind fun id => if heading.1 = 2 then some id else none

/-- One parsed entry: its lines without the blank lines at its end. -/
def entryText (entry : Text × List Text) : Kept :=
  let lines := entry.2.rdropWhile List.isEmpty
  (entry.1, joinLines lines ++ if lines.isEmpty then [] else ['\n'])

/-- The entry that is open, with a line more. -/
def pushLine (current : Option (Text × List Text)) (line : Text) : Option (Text × List Text) :=
  current.map fun entry => (entry.1, entry.2 ++ [line])

/-- The loop of `parse_baseline`, with the entry that is open. -/
def parseEntries : Option (Text × List Text) → List Text → List Kept
  | current, [] => (current.map entryText).toList
  | current, [line] => ((pushLine current line).map entryText).toList
  | current, line :: next :: lines =>
      match entryStart line next with
      | some id => (current.map entryText).toList ++ parseEntries (some (id, [line])) lines
      | none => parseEntries (pushLine current line) (next :: lines)

/-- The sections of a baseline file, in file order. -/
def parseBaseline (text : Text) : List Kept :=
  if trim text = [] then []
  else
    let lines := (splitNewline text).map withoutReturns
    if lines.head? = some topMarker then parseEntries (some (topSection, [])) lines.tail
    else parseEntries none lines

/-- One block of a baseline file. -/
def renderEntry (entry : Kept) : Text :=
  let text := trimEndMatches (· == '\n') entry.2
  if entry.1 = topSection then topMarker ++ ['\n'] ++ text ++ "\n\n".toList
  else
    let parts := (splitOnce ['\n'] text).getD (text, [])
    parts.1 ++ ['\n'] ++ idLine entry.1 ++ ['\n'] ++ parts.2 ++ "\n\n".toList

/-- The top entries first, then the others. -/
def topFirst (entries : List Kept) : List Kept :=
  entries.filter (fun entry => entry.1 = topSection) ++
    entries.filter fun entry => entry.1 ≠ topSection

/-- A baseline file for these sections. -/
def renderBaseline (entries : List Kept) : Text := (topFirst entries).flatMap renderEntry

/-- What happened to one section since it was last reflected. -/
inductive ChangeKind where
  | new
  | changed
  | removed
  deriving DecidableEq

structure SectionChange where
  id : Option Text
  heading : Text
  kind : ChangeKind
  /-- The reflected text; empty for a new section. -/
  before : Text
  /-- The current text; empty for a removed section. -/
  after : Text
  deriving DecidableEq

/-- The heading text of a section. -/
def headingOf (text : Text) : Text :=
  (((lines text).head?.bind parseHeading).filter fun heading => heading.1 = 2).elim [] Prod.snd

/-- A character a quote or an indent is made of. -/
def isQuoteChar (char : Char) : Bool := char ∈ [' ', '\t', '>']

/-- How long the list marker at the start of a text is. -/
def markerLength (rest : Text) : Option Nat :=
  match rest with
  | [] => none
  | first :: _ =>
      if first ∈ ['-', '*', '+'] then some 1
      else
        let digits := (rest.takeWhile isAsciiDigit).length
        let closes := (rest.drop digits).head?.any fun char => char ∈ ['.', ')']
        if 1 ≤ digits && digits ≤ 9 && closes then some (digits + 1) else none

/-- The line with its task box read as `[ ]`. -/
def unticked (line : Text) : Option Text := do
  let quote := line.takeWhile isQuoteChar
  let rest := line.dropWhile isQuoteChar
  let length ← markerLength rest
  let item ← stripPrefix [' '] (rest.drop length)
  let tail ← ["[ ]".toList, "[x]".toList, "[X]".toList, "[~]".toList].findSome? fun box =>
    stripPrefix box item
  some (quote ++ rest.take length ++ " [ ]".toList ++ tail)

/-- The lines of a section with their task boxes unticked outside fences. -/
def untickedLines (fence : FenceTracker) : List Text → List Text
  | [] => []
  | line :: lines =>
      let walked := fence.inFence (trimStartMatches isQuoteChar line)
      (if walked.1 then line else (unticked line).getD line) :: untickedLines walked.2 lines

/-- The text two sections that differ only in task boxes share. -/
def withoutBoxes (text : Text) : Text :=
  joinLines (untickedLines none (lines (normalizeSectionText text)))

def sameButTaskBoxes (before after : Text) : Bool := withoutBoxes before = withoutBoxes after

/-- The text reflected last under an id. -/
def reflectedText (reflected : List Kept) (id : Text) : Option Text :=
  (reflected.find? fun entry => entry.1 = id).map Prod.snd

section Changes

variable (sha256Hex : Text → Text)

/-- What happened to a section of the page. -/
def changeKind (reflected : List Kept) (part : Section) : Option ChangeKind :=
  match part.id.bind (reflectedText reflected) with
  | none =>
      if part.id = some topSection && trim part.text = [] then none else some .new
  | some before =>
      if sectionHash sha256Hex before ≠ sectionHash sha256Hex part.text &&
          !sameButTaskBoxes before part.text then
        some .changed
      else none

def pageChange (reflected : List Kept) (part : Section) : Option SectionChange :=
  (changeKind sha256Hex reflected part).map fun kind =>
    { id := part.id
      heading := part.heading
      kind
      before := (part.id.bind (reflectedText reflected)).getD []
      after := part.text }

def removedChange (entry : Kept) : SectionChange :=
  { id := some entry.1
    heading := headingOf entry.2
    kind := .removed
    before := entry.2
    after := [] }

/-- Whether the page has a section of that id. -/
def onPage (sections : List Section) (id : Text) : Bool :=
  sections.any fun part => part.id = some id

/-- The feedback changes of a page against its baseline: in page order, the
removed sections last. -/
def feedbackChanges (current baseline : Text) : List SectionChange :=
  let reflected := parseBaseline baseline
  let sections := splitSections current
  sections.filterMap (pageChange sha256Hex reflected) ++
    (reflected.filter fun entry => !onPage sections entry.1).map removedChange

end Changes

/-- One turn of `advance_baseline`: the entry of an id is its current text, or
gone. -/
def advanceOne (sections : List Section) (reflected : List Kept) (id : Text) : List Kept :=
  (reflected.filter fun entry => entry.1 ≠ id) ++
    ((sections.find? fun part => part.id = some id).map fun part => (id, part.text)).toList

/-- Where the page has a section; a section it has not comes after all of it. -/
def placeOnPage (sections : List Section) (id : Text) : Nat :=
  sections.findIdx fun part => part.id = some id

/-- The entries of the advanced baseline: page order, by a stable sort. -/
def advancedEntries (reflected : List Kept) (sections : List Section) (ids : List Text) :
    List Kept :=
  (ids.foldl (advanceOne sections) reflected).insertionSort fun left right =>
    placeOnPage sections left.1 ≤ placeOnPage sections right.1

/-- `baseline` with the named sections advanced to their current text. -/
def advanceBaseline (baseline current : Text) (ids : List Text) : Text :=
  renderBaseline (advancedEntries (parseBaseline baseline) (splitSections current) ids)

/-- Whether two lines in a row open an entry. -/
def startsEntry : List Text → Bool
  | line :: next :: lines => (entryStart line next).isSome || startsEntry (next :: lines)
  | _ => false

/-- The lines of an entry below its heading; the top has none. -/
def innerLines (id : Text) (lines : List Text) : List Text :=
  if id = topSection then lines else lines.tail

/-- Whether a baseline file cuts the entry: a `##` heading stands directly over
an id line in its text, below its own heading. -/
def hasInnerEntry (entry : Kept) : Bool :=
  startsEntry (innerLines entry.1 (splitNewline entry.2))

/-- An entry cut from a page: the top, or a section with an id. -/
structure IsEntry (entry : Kept) : Prop where
  clean : ∀ line ∈ splitNewline entry.2, IsCleanLine line
  named : entry.1 = topSection ∨ isSectionId entry.1 = true ∧
    ((splitNewline entry.2).head?.bind parseHeading).map Prod.fst = some 2

/-- The entry as it is read back: without the blank lines at its end. -/
def settled (entry : Kept) : Kept := entryText (entry.1, splitNewline entry.2)

section Pairs

variable {lines before after : List Text} {line next : Text}

theorem entryStart_nil_left (next : Text) : entryStart [] next = none := by
  rw [entryStart, parseHeading_nil]
  rfl

theorem entryStart_nil_right (line : Text) : entryStart line [] = none := by
  rw [entryStart, parseIdLine_nil]
  cases parseHeading line <;> rfl

@[simp] theorem startsEntry_cons_cons (line next : Text) (lines : List Text) :
    startsEntry (line :: next :: lines) =
      ((entryStart line next).isSome || startsEntry (next :: lines)) := rfl

theorem startsEntry_append_nil (before after : List Text) :
    startsEntry (before ++ [] :: after) = (startsEntry before || startsEntry after) := by
  induction before with
  | nil =>
      cases after with
      | nil => rfl
      | cons next after => simp [entryStart_nil_left, startsEntry]
  | cons line before induction =>
      cases before with
      | nil =>
          rw [List.singleton_append, startsEntry_cons_cons, entryStart_nil_right]
          exact induction
      | cons second before =>
          rw [List.cons_append, List.cons_append, startsEntry_cons_cons, startsEntry_cons_cons,
            ← List.cons_append, induction, Bool.or_assoc]

theorem startsEntry_rdropWhile (lines : List Text) :
    startsEntry (lines.rdropWhile List.isEmpty) = startsEntry lines := by
  induction lines using List.reverseRecOn with
  | nil => rfl
  | append_singleton lines last induction =>
      cases last with
      | nil =>
          rw [List.rdropWhile_concat_pos _ _ _ rfl, induction, startsEntry_append_nil]
          simp [startsEntry]
      | cons char last => rw [List.rdropWhile_concat_neg _ _ _ (by simp)]

theorem startsEntry_of_append (apart : startsEntry (before ++ after) = false) :
    startsEntry before = false := by
  induction before with
  | nil => rfl
  | cons line before induction =>
      cases before with
      | nil => rfl
      | cons second before =>
          rw [List.cons_append, List.cons_append, startsEntry_cons_cons,
            Bool.or_eq_false_iff] at apart
          rw [startsEntry_cons_cons, apart.1, induction apart.2]
          rfl

theorem startsEntry_snoc_snoc (apart : startsEntry (before ++ [line]) = false)
    (none : entryStart line next = none) :
    startsEntry (before ++ [line] ++ [next]) = false := by
  induction before with
  | nil => simp [startsEntry, none]
  | cons first before induction =>
      cases before with
      | nil =>
          simp only [List.cons_append, List.nil_append, startsEntry_cons_cons,
            Bool.or_eq_false_iff] at apart ⊢
          exact ⟨apart.1, by simp [none, startsEntry]⟩
      | cons second before =>
          rw [List.cons_append, List.cons_append, startsEntry_cons_cons,
            Bool.or_eq_false_iff] at apart
          rw [List.cons_append, List.cons_append, List.cons_append, List.cons_append,
            startsEntry_cons_cons, apart.1]
          exact induction apart.2

/-- The first pair, with no pair before it. -/
theorem exists_first_pair (starts : startsEntry lines = true) :
    ∃ before line next after id, lines = before ++ line :: next :: after ∧
      startsEntry (before ++ [line]) = false ∧ entryStart line next = some id := by
  induction lines with
  | nil => cases starts
  | cons line lines induction =>
      cases lines with
      | nil => cases starts
      | cons next lines =>
          cases found : entryStart line next with
          | some id => exact ⟨[], line, next, lines, id, rfl, rfl, found⟩
          | none =>
              rw [startsEntry_cons_cons, found] at starts
              obtain ⟨before, first, second, after, id, whole, apart, opens⟩ :=
                induction starts
              refine ⟨line :: before, first, second, after, id, by rw [whole]; rfl, ?_, opens⟩
              cases before with
              | nil =>
                  obtain ⟨rfl, -⟩ := List.cons.inj whole
                  simp [startsEntry, found]
              | cons head before =>
                  obtain ⟨rfl, -⟩ := List.cons.inj whole
                  rw [List.cons_append, List.cons_append, startsEntry_cons_cons, found]
                  exact apart

end Pairs

section Blocks

variable {entry : Kept} {current : Option (Text × List Text)}

/-- The lines of an entry that are kept. -/
def keptLines (entry : Kept) : List Text := (splitNewline entry.2).rdropWhile List.isEmpty

/-- The lines of a text of these lines: no lines are written as a blank one. -/
def padded (lines : List Text) : List Text := if lines = [] then [[]] else lines

/-- The lines one entry is rendered to. -/
def blockLines (entry : Kept) : List Text :=
  (if entry.1 = topSection then [topMarker]
    else [(keptLines entry).headD [], idLine entry.1]) ++
    padded (innerLines entry.1 (keptLines entry)) ++ [[]]

theorem entryText_snoc_nil (id : Text) (lines : List Text) :
    entryText (id, lines ++ [[]]) = entryText (id, lines) := by
  rw [entryText, entryText, List.rdropWhile_concat_pos _ _ _ rfl]

theorem entryText_padded (id : Text) (before lines : List Text) :
    entryText (id, before ++ padded lines) = entryText (id, before ++ lines) := by
  rw [padded]
  split
  next empty =>
    rw [empty, List.append_nil]
    exact entryText_snoc_nil id before
  · rfl

theorem startsEntry_padded (lines : List Text) :
    startsEntry (padded lines) = startsEntry lines := by
  rw [padded]
  split
  next empty =>
    rw [empty]
    rfl
  · rfl

/-- Lines that open no entry are taken into the one that is open, up to the
blank line behind them. -/
theorem parseEntries_lines {lines : List Text} (apart : startsEntry lines = false)
    (id : Text) (held : List Text) (rest : List Text) :
    parseEntries (some (id, held)) (lines ++ [] :: rest) =
      parseEntries (some (id, held ++ lines ++ [[]])) rest := by
  induction lines generalizing held with
  | nil =>
      rw [List.nil_append, List.append_nil]
      cases rest with
      | nil => rfl
      | cons next rest =>
          rw [parseEntries, entryStart_nil_left]
          rfl
  | cons line lines induction =>
      have later : startsEntry lines = false := by
        cases lines with
        | nil => rfl
        | cons next lines =>
            rw [startsEntry_cons_cons, Bool.or_eq_false_iff] at apart
            exact apart.2
      have step : parseEntries (some (id, held)) (line :: (lines ++ [] :: rest)) =
          parseEntries (some (id, held ++ [line])) (lines ++ [] :: rest) := by
        cases lines with
        | nil =>
            rw [List.nil_append, parseEntries, entryStart_nil_right]
            rfl
        | cons next lines =>
            rw [startsEntry_cons_cons, Bool.or_eq_false_iff] at apart
            have none : entryStart line next = none := by simpa using apart.1
            rw [List.cons_append, parseEntries, none]
            rfl
      rw [List.cons_append, step, induction later]
      simp

variable {line next id : Text}

theorem parseEntries_opens (opens : entryStart line next = some id) (rest : List Text) :
    parseEntries current (line :: next :: rest) =
      (current.map entryText).toList ++ parseEntries (some (id, [line])) rest := by
  rw [parseEntries, opens]

/-- The first pair inside an entry cuts it. -/
theorem parseEntries_cut {before : List Text} (apart : startsEntry (before ++ [line]) = false)
    (opens : entryStart line next = some id) (name : Text) (held rest : List Text) :
    parseEntries (some (name, held)) (before ++ line :: next :: rest) =
      entryText (name, held ++ before) :: parseEntries (some (id, [line])) rest := by
  induction before generalizing held with
  | nil =>
      rw [List.nil_append, parseEntries_opens opens, List.append_nil]
      rfl
  | cons first before induction =>
      obtain ⟨second, tail, shape, none⟩ : ∃ second tail,
          before ++ line :: next :: rest = second :: tail ∧ entryStart first second = none := by
        cases before with
        | nil =>
            rw [List.cons_append, List.nil_append, startsEntry_cons_cons,
              Bool.or_eq_false_iff] at apart
            exact ⟨line, next :: rest, rfl, by simpa using apart.1⟩
        | cons second before =>
            rw [List.cons_append, List.cons_append, startsEntry_cons_cons,
              Bool.or_eq_false_iff] at apart
            exact ⟨second, before ++ line :: next :: rest, rfl, by simpa using apart.1⟩
      have later : startsEntry (before ++ [line]) = false := by
        cases before with
        | nil => rfl
        | cons second before =>
            rw [List.cons_append, List.cons_append, startsEntry_cons_cons,
              Bool.or_eq_false_iff] at apart
            exact apart.2
      have step : parseEntries (some (name, held)) (first :: (before ++ line :: next :: rest)) =
          parseEntries (some (name, held ++ [first])) (before ++ line :: next :: rest) := by
        rw [shape, parseEntries, none]
        rfl
      rw [List.cons_append, step, induction later, List.append_assoc]
      rfl

end Blocks

section Rendered

variable {entry : Kept} {lines : List Text}

/-- Trimming line feeds off a text drops the blank lines at its end. -/
theorem trimNewlines_joinLines (absent : ∀ line ∈ lines, '\n' ∉ line) :
    trimEndMatches (· == '\n') (joinLines lines) =
      joinLines (lines.rdropWhile List.isEmpty) := by
  induction lines using List.reverseRecOn with
  | nil => rfl
  | append_singleton lines last induction =>
      have before := induction fun line member => absent line (List.mem_append_left _ member)
      cases last using List.reverseRecOn with
      | nil =>
          rw [List.rdropWhile_concat_pos _ _ _ rfl, ← before]
          cases lines with
          | nil => rfl
          | cons line lines =>
              have blank : joinLines [[]] = [] := rfl
              rw [joinLines_append (by simp) (by simp), blank, trimEndMatches,
                List.rdropWhile_concat_pos _ _ _ (by simp)]
              rfl
      | append_singleton init char _ =>
          have other : char ≠ '\n' := by
            rintro rfl
            exact absent (init ++ ['\n']) (by simp) (by simp)
          obtain ⟨front, ends⟩ : ∃ front,
              joinLines (lines ++ [init ++ [char]]) = front ++ [char] := by
            cases lines with
            | nil => exact ⟨init, by simp [joinLines]⟩
            | cons line lines =>
                refine ⟨joinLines (line :: lines) ++ '\n' :: init, ?_⟩
                rw [joinLines_append (by simp) (by simp)]
                simp [joinLines]
          rw [List.rdropWhile_concat_neg _ _ _ (by simp), ends, trimEndMatches,
            List.rdropWhile_concat_neg _ _ _ (by simpa using other)]

theorem mem_keptLines {line : Text} (member : line ∈ keptLines entry) :
    line ∈ splitNewline entry.2 :=
  (List.rdropWhile_prefix _ _).subset member

theorem newline_notMem_keptLines : ∀ line ∈ keptLines entry, '\n' ∉ line :=
  fun _ member => newline_notMem_of_mem_splitNewline (mem_keptLines member)

theorem trimNewlines_entry (entry : Kept) :
    trimEndMatches (· == '\n') entry.2 = joinLines (keptLines entry) := by
  have absent : ∀ line ∈ splitNewline entry.2, '\n' ∉ line :=
    fun _ member => newline_notMem_of_mem_splitNewline member
  rw [keptLines, ← trimNewlines_joinLines absent, joinLines_splitNewline]

theorem splitNewline_padded (absent : ∀ line ∈ lines, '\n' ∉ line) :
    splitNewline (joinLines lines) = padded lines := by
  cases lines with
  | nil => rfl
  | cons line lines => exact splitNewline_joinLines absent

theorem IsEntry.heading (isEntry : IsEntry entry) (section' : entry.1 ≠ topSection) :
    ∃ first rest, splitNewline entry.2 = first :: rest ∧
      (parseHeading first).map Prod.fst = some 2 ∧
      keptLines entry = first :: rest.rdropWhile List.isEmpty := by
  obtain ⟨-, heading⟩ := isEntry.named.resolve_left section'
  cases cut : splitNewline entry.2 with
  | nil => exact absurd cut (splitNewline_ne_nil _)
  | cons first rest =>
      rw [cut] at heading
      refine ⟨first, rest, rfl, heading, ?_⟩
      have kept : first.isEmpty = false := by
        cases first with
        | nil =>
            rw [List.head?_cons, Option.bind_some, parseHeading_nil] at heading
            cases heading
        | cons char first => rfl
      rw [keptLines, cut]
      exact rdropWhile_append_cons kept [] rest

theorem notMem_topMarker : '\n' ∉ topMarker := by decide

theorem notMem_idLine {id : Text} (valid : isSectionId id = true) : '\n' ∉ idLine id := by
  intro member
  rw [idLine] at member
  rcases List.mem_append.mp member with member | closing
  · rcases List.mem_append.mp member with opening | inside
    · exact absurd opening (by decide)
    · have hex := List.all_eq_true.mp (Bool.and_eq_true_iff.mp valid).2 '\n' inside
      exact absurd hex (by decide)
  · exact absurd closing (by decide)

/-- The lines an entry is rendered to, before whatever follows. -/
theorem splitNewline_renderEntry (isEntry : IsEntry entry) (rest : Text) :
    splitNewline (renderEntry entry ++ rest) = blockLines entry ++ splitNewline rest := by
  have absent := @newline_notMem_keptLines entry
  have ends : ∀ text : Text, text ++ "\n\n".toList ++ rest = text ++ '\n' :: '\n' :: rest := by
    intro text
    rw [List.append_assoc]
    rfl
  have blank : ∀ text : Text, splitNewline (text ++ '\n' :: '\n' :: rest) =
      splitNewline text ++ [[]] ++ splitNewline rest := by
    intro text
    have second := splitNewline_append_cons [] rest
    rw [List.nil_append] at second
    rw [splitNewline_append_cons, second, List.append_assoc]
    rfl
  rw [renderEntry, trimNewlines_entry, blockLines]
  by_cases top : entry.1 = topSection
  · rw [if_pos top, if_pos top, innerLines, if_pos top, ends, List.append_assoc,
      List.append_assoc, List.singleton_append, splitNewline_cons_line notMem_topMarker,
      blank, splitNewline_padded absent]
    simp
  · obtain ⟨first, lines, -, -, kept⟩ := isEntry.heading top
    have valid := (isEntry.named.resolve_left top).1
    rw [kept] at absent
    have firstAbsent := absent first List.mem_cons_self
    have parts : (splitOnce ['\n'] (joinLines (keptLines entry))).getD
        (joinLines (keptLines entry), []) =
          (first, joinLines (lines.rdropWhile List.isEmpty)) := by
      rw [kept]
      cases lines.rdropWhile List.isEmpty with
      | nil =>
          have whole : joinLines [first] = first := by simp [joinLines]
          rw [whole, splitOnce_char_eq_none_iff.mpr firstAbsent]
          rfl
      | cons next later =>
          have whole : joinLines (first :: next :: later) =
              first ++ '\n' :: joinLines (next :: later) := rfl
          rw [whole, splitOnce_char_append firstAbsent]
          rfl
    rw [if_neg top, if_neg top, innerLines, if_neg top, parts, kept, ends]
    dsimp only
    rw [List.append_assoc, List.append_assoc, List.append_assoc, List.append_assoc,
      List.singleton_append, splitNewline_cons_line firstAbsent, List.singleton_append,
      splitNewline_cons_line (notMem_idLine valid), blank,
      splitNewline_padded fun line member => absent line (List.mem_cons_of_mem _ member)]
    simp

theorem splitNewline_render {entries : List Kept} (every : ∀ entry ∈ entries, IsEntry entry) :
    splitNewline (entries.flatMap renderEntry) = entries.flatMap blockLines ++ [[]] := by
  induction entries with
  | nil => rfl
  | cons entry entries induction =>
      rw [List.flatMap_cons, List.flatMap_cons,
        splitNewline_renderEntry (every entry List.mem_cons_self),
        induction fun other member => every other (List.mem_cons_of_mem _ member),
        List.append_assoc]

end Rendered

end Crystalline.Reflection
