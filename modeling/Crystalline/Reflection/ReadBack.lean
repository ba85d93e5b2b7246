import Crystalline.Reflection.Baseline

/-!
# A baseline file read back

Rendered entries are read back up to the first one with an inner pair; what is
read of any file has no such pair.
-/

namespace Crystalline.Reflection

open Text

section Runs

variable {entry : Kept} {entries : List Kept}

theorem settled_eq (entry : Kept) : settled entry = entryText (entry.1, keptLines entry) := by
  rw [settled, entryText, entryText, keptLines]
  dsimp only
  rw [List.rdropWhile_idempotent]

theorem startsEntry_inner (isEntry : IsEntry entry) :
    startsEntry (innerLines entry.1 (keptLines entry)) = hasInnerEntry entry := by
  rw [hasInnerEntry]
  by_cases top : entry.1 = topSection
  · rw [innerLines, innerLines, if_pos top, if_pos top, keptLines, startsEntry_rdropWhile]
  · obtain ⟨first, rest, cut, -, kept⟩ := isEntry.heading top
    rw [innerLines, innerLines, if_neg top, if_neg top, kept, cut]
    exact startsEntry_rdropWhile rest

theorem parseEntries_block (isEntry : IsEntry entry) (named : entry.1 ≠ topSection)
    (current : Option (Text × List Text)) (tail : List Text) :
    ∃ first, keptLines entry = first :: innerLines entry.1 (keptLines entry) ∧
      parseEntries current (blockLines entry ++ tail) = (current.map entryText).toList ++
        parseEntries (some (entry.1, [first]))
          (padded (innerLines entry.1 (keptLines entry)) ++ [] :: tail) := by
  obtain ⟨first, rest, -, level, kept⟩ := isEntry.heading named
  have valid := (isEntry.named.resolve_left named).1
  have opens : entryStart first (idLine entry.1) = some entry.1 := by
    obtain ⟨heading, read, two⟩ := Option.map_eq_some_iff.mp level
    rw [entryStart, read, Option.bind_some, parseIdLine_idLine valid, Option.bind_some, if_pos two]
  have shape : keptLines entry = first :: innerLines entry.1 (keptLines entry) := by
    rw [innerLines, if_neg named, kept, List.tail_cons]
  have lines : blockLines entry ++ tail = first :: idLine entry.1 ::
      (padded (innerLines entry.1 (keptLines entry)) ++ [] :: tail) := by
    rw [blockLines, if_neg named]
    rw [shape]
    simp
  refine ⟨first, shape, ?_⟩
  rw [lines, parseEntries_opens opens]

/-- Sections without an inner pair are read back, whatever follows them. -/
theorem parseEntries_blocks (every : ∀ entry ∈ entries, IsEntry entry)
    (named : ∀ entry ∈ entries, entry.1 ≠ topSection)
    (whole : ∀ entry ∈ entries, hasInnerEntry entry = false)
    (current : Option (Text × List Text)) (tail : List Text) :
    ∃ done last, parseEntries current (entries.flatMap blockLines ++ tail) =
        done ++ parseEntries last tail ∧
      done ++ (last.map entryText).toList =
        (current.map entryText).toList ++ entries.map settled := by
  induction entries generalizing current with
  | nil => exact ⟨[], current, rfl, by simp⟩
  | cons entry entries induction =>
      have isEntry := every entry List.mem_cons_self
      obtain ⟨first, shape, opened⟩ := parseEntries_block isEntry
        (named entry List.mem_cons_self) current (entries.flatMap blockLines ++ tail)
      have apart : startsEntry (padded (innerLines entry.1 (keptLines entry))) = false := by
        rw [startsEntry_padded, startsEntry_inner isEntry, whole entry List.mem_cons_self]
      obtain ⟨done, last, rest, collected⟩ := induction
        (fun other member => every other (List.mem_cons_of_mem _ member))
        (fun other member => named other (List.mem_cons_of_mem _ member))
        (fun other member => whole other (List.mem_cons_of_mem _ member))
        (some (entry.1, [first] ++ padded (innerLines entry.1 (keptLines entry)) ++ [[]]))
      have text : entryText
          (entry.1, [first] ++ padded (innerLines entry.1 (keptLines entry)) ++ [[]]) =
            settled entry := by
        rw [entryText_snoc_nil, entryText_padded, List.singleton_append, ← shape, settled_eq]
      refine ⟨(current.map entryText).toList ++ done, last, ?_, ?_⟩
      · rw [List.flatMap_cons, List.append_assoc, opened, parseEntries_lines apart, rest,
          List.append_assoc]
      · rw [List.append_assoc, collected, Option.map_some, text]
        rfl

theorem parseEntries_end (current : Option (Text × List Text)) :
    parseEntries current [[]] = (current.map entryText).toList := by
  cases current with
  | none => rfl
  | some entry =>
      have blank : entryText (entry.1, entry.2 ++ [[]]) = entryText entry :=
        entryText_snoc_nil entry.1 entry.2
      rw [parseEntries, pushLine, Option.map_some, Option.map_some, blank]
      rfl

end Runs

section Files

variable {entries : List Kept} {top : Kept}

theorem isCleanLine_topMarker : IsCleanLine topMarker := ⟨by decide, by decide⟩

theorem isCleanLine_nil : IsCleanLine [] := ⟨by simp, rfl⟩

theorem isCleanLine_idLine {id : Text} (valid : isSectionId id = true) :
    IsCleanLine (idLine id) := by
  refine ⟨notMem_idLine valid, ?_⟩
  have ends : idClose = " --".toList ++ ['>'] := by decide
  rw [idLine, ends, ← List.append_assoc]
  exact withoutReturns_snoc_other _ (by decide)

theorem blockLines_clean {entry : Kept} (isEntry : IsEntry entry) :
    ∀ line ∈ blockLines entry, IsCleanLine line := by
  have kept : ∀ line ∈ keptLines entry, IsCleanLine line := fun line member =>
    isEntry.clean line (mem_keptLines member)
  have inner : ∀ line ∈ innerLines entry.1 (keptLines entry), IsCleanLine line := by
    intro line member
    rw [innerLines] at member
    split at member
    · exact kept line member
    · exact kept line (List.mem_of_mem_tail member)
  intro line member
  rw [blockLines, List.mem_append, List.mem_append, List.mem_singleton] at member
  rcases member with (opening | body) | rfl
  · split at opening
    · rw [List.mem_singleton.mp opening]
      exact isCleanLine_topMarker
    next named =>
      rcases List.mem_pair.mp opening with rfl | rfl
      · obtain ⟨first, rest, -, -, shape⟩ := isEntry.heading named
        rw [shape, List.headD_cons]
        exact kept first (by rw [shape]; exact List.mem_cons_self)
      · exact isCleanLine_idLine (isEntry.named.resolve_left named).1
  · rw [padded] at body
    split at body
    · rw [List.mem_singleton.mp body]
      exact isCleanLine_nil
    · exact inner line body
  · exact isCleanLine_nil

theorem lines_render (every : ∀ entry ∈ entries, IsEntry entry) :
    (splitNewline (entries.flatMap renderEntry)).map withoutReturns =
      entries.flatMap blockLines ++ [[]] := by
  rw [splitNewline_render every]
  have same : ∀ line ∈ entries.flatMap blockLines ++ [[]], withoutReturns line = id line := by
    intro line member
    rcases List.mem_append.mp member with block | last
    · obtain ⟨entry, found, inside⟩ := List.mem_flatMap.mp block
      exact (blockLines_clean (every entry found) line inside).returns
    · rw [List.mem_singleton.mp last]
      rfl
  rw [List.map_congr_left same, List.map_id]

theorem trim_render_ne_nil (entry : Kept) (entries : List Kept) :
    trim ((entry :: entries).flatMap renderEntry) ≠ [] := by
  intro blank
  have opening : '<' ∈ renderEntry entry := by
    have opens : ∀ id, '<' ∈ idLine id := by
      intro id
      rw [idLine, List.append_assoc]
      exact List.mem_append_left _ (by decide)
    rw [renderEntry]
    split
    · rw [topMarker, List.append_assoc, List.append_assoc]
      exact List.mem_append_left _ (opens topSection)
    · have marker := opens entry.1
      simp only [List.mem_append]
      exact .inl (.inl (.inl (.inr marker)))
  have blankChar := trim_eq_nil_iff.mp blank '<' (by
    rw [List.flatMap_cons]
    exact List.mem_append_left _ opening)
  exact absurd blankChar (by decide)

theorem parseBaseline_sections (every : ∀ entry ∈ entries, IsEntry entry)
    (named : ∀ entry ∈ entries, entry.1 ≠ topSection) :
    parseBaseline (entries.flatMap renderEntry) =
      parseEntries none (entries.flatMap blockLines ++ [[]]) := by
  cases entries with
  | nil => decide
  | cons entry entries =>
      rw [parseBaseline, if_neg (trim_render_ne_nil entry entries)]
      dsimp only
      rw [lines_render every]
      have notTop : (((entry :: entries).flatMap blockLines ++ [[]]).head?) ≠ some topMarker := by
        have isEntry := every entry List.mem_cons_self
        have different := named entry List.mem_cons_self
        obtain ⟨first, rest, -, level, kept⟩ := isEntry.heading different
        rw [List.flatMap_cons, blockLines, if_neg different, kept]
        intro same
        have marker : first = topMarker := by simpa using same
        rw [marker] at level
        exact absurd level (by decide)
      rw [if_neg notTop]

theorem parseBaseline_top (isTop : top.1 = topSection) (isEntry : IsEntry top)
    (every : ∀ entry ∈ entries, IsEntry entry) :
    parseBaseline ((top :: entries).flatMap renderEntry) =
      parseEntries (some (topSection, []))
        (padded (keptLines top) ++ [] :: (entries.flatMap blockLines ++ [[]])) := by
  have all : ∀ entry ∈ top :: entries, IsEntry entry := by
    intro entry member
    rcases List.mem_cons.mp member with rfl | later
    · exact isEntry
    · exact every entry later
  rw [parseBaseline, if_neg (trim_render_ne_nil top entries)]
  dsimp only
  have lines : (top :: entries).flatMap blockLines ++ [[]] = topMarker ::
      (padded (keptLines top) ++ [] :: (entries.flatMap blockLines ++ [[]])) := by
    rw [List.flatMap_cons, blockLines, if_pos isTop, innerLines, if_pos isTop]
    simp
  rw [lines_render all, lines, List.head?_cons, if_pos rfl, List.tail_cons]

end Files

section Sound

variable {id : Text} {held : List Text}

/-- What every entry read of a file is: it has no inner pair and no blank line
at its end. -/
structure IsSound (entry : Kept) : Prop where
  isEntry : IsEntry entry
  whole : hasInnerEntry entry = false
  settles : settled entry = entry

/-- An entry that is open, before the lines still to be read. -/
structure IsOpen (id : Text) (held remaining : List Text) : Prop where
  clean : ∀ line ∈ held, IsCleanLine line
  named : id = topSection ∨ isSectionId id = true ∧
    (held.head?.bind parseHeading).map Prod.fst = some 2
  apart : startsEntry (innerLines id held ++ remaining.take 1) = false

variable {lines : List Text} {line next : Text}

theorem head_not_blank (heading : (lines.head?.bind parseHeading).map Prod.fst = some 2) :
    ∃ first rest, lines = first :: rest ∧ first.isEmpty = false := by
  cases lines with
  | nil => cases heading
  | cons first rest =>
      refine ⟨first, rest, rfl, ?_⟩
      cases first with
      | nil =>
          rw [List.head?_cons, Option.bind_some, parseHeading_nil] at heading
          cases heading
      | cons char first => rfl

theorem splitNewline_entryText (clean : ∀ line ∈ held, IsCleanLine line) :
    splitNewline (entryText (id, held)).2 = held.rdropWhile List.isEmpty ++ [[]] := by
  rw [entryText]
  dsimp only
  have absent : ∀ line ∈ held.rdropWhile List.isEmpty, '\n' ∉ line := fun line member =>
    (clean line ((List.rdropWhile_prefix _ _).subset member)).newline
  cases kept : held.rdropWhile List.isEmpty with
  | nil => rfl
  | cons line lines =>
      rw [kept] at absent
      have ended := splitNewline_append_cons (joinLines (line :: lines)) []
      rw [splitNewline_joinLines absent] at ended
      exact ended

theorem startsEntry_innerLines (named : id = topSection ∨ isSectionId id = true ∧
      (held.head?.bind parseHeading).map Prod.fst = some 2) :
    startsEntry (innerLines id (held.rdropWhile List.isEmpty ++ [[]])) =
      startsEntry (innerLines id held) := by
  rw [innerLines, innerLines]
  split
  · rw [startsEntry_append_nil, startsEntry_rdropWhile]
    simp [startsEntry]
  next different =>
    obtain ⟨first, rest, rfl, kept⟩ := head_not_blank (named.resolve_left different).2
    have shape := rdropWhile_append_cons kept [] rest
    rw [List.nil_append, List.nil_append] at shape
    rw [shape, List.cons_append, List.tail_cons, List.tail_cons, startsEntry_append_nil,
      startsEntry_rdropWhile]
    simp [startsEntry]

theorem IsOpen.isSound {remaining : List Text} (isOpen : IsOpen id held remaining) :
    IsSound (entryText (id, held)) := by
  have lines := @splitNewline_entryText id held isOpen.clean
  refine ⟨⟨?_, ?_⟩, ?_, ?_⟩
  · intro line member
    rw [lines] at member
    rcases List.mem_append.mp member with inside | last
    · exact isOpen.clean line ((List.rdropWhile_prefix _ _).subset inside)
    · rw [List.mem_singleton.mp last]
      exact isCleanLine_nil
  · rcases isOpen.named with top | ⟨valid, heading⟩
    · exact .inl top
    · obtain ⟨first, rest, rfl, kept⟩ := head_not_blank heading
      have shape := rdropWhile_append_cons kept [] rest
      rw [List.nil_append, List.nil_append] at shape
      rw [lines, shape]
      exact .inr ⟨valid, heading⟩
  · rw [hasInnerEntry, lines]
    exact (startsEntry_innerLines isOpen.named).trans (startsEntry_of_append isOpen.apart)
  · have again := entryText_snoc_nil id (held.rdropWhile List.isEmpty)
    rw [settled, lines]
    refine again.trans ?_
    rw [entryText, entryText]
    dsimp only
    rw [List.rdropWhile_idempotent]

theorem isSectionId_of_entryStart (opens : entryStart line next = some id) :
    isSectionId id = true ∧ (parseHeading line).map Prod.fst = some 2 := by
  obtain ⟨heading, read, found⟩ := Option.bind_eq_some_iff.mp opens
  obtain ⟨read', parsed, level⟩ := Option.bind_eq_some_iff.mp found
  split at level
  next two =>
    cases level
    exact ⟨isSectionId_of_parseIdLine parsed, by rw [read]; exact congrArg some two⟩
  · cases level

theorem IsOpen.opened (opens : entryStart line next = some id) (clean : IsCleanLine line) :
    IsOpen id [line] lines := by
  obtain ⟨valid, level⟩ := isSectionId_of_entryStart opens
  refine ⟨by simpa using clean, .inr ⟨valid, by simpa using level⟩, ?_⟩
  rw [innerLines, if_neg (topSection_ne valid)]
  cases lines <;> rfl

theorem IsOpen.pushed (isOpen : IsOpen id held (line :: next :: lines)) (clean : IsCleanLine line)
    (none : entryStart line next = none) : IsOpen id (held ++ [line]) (next :: lines) := by
  have apart := isOpen.apart
  refine ⟨?_, ?_, ?_⟩
  · intro other member
    rcases List.mem_append.mp member with before | last
    · exact isOpen.clean other before
    · rwa [List.mem_singleton.mp last]
  · refine isOpen.named.imp_right fun named => ⟨named.1, ?_⟩
    obtain ⟨first, rest, rfl, -⟩ := head_not_blank named.2
    exact named.2
  · have inner : innerLines id (held ++ [line]) = innerLines id held ++ [line] := by
      rw [innerLines, innerLines]
      split
      · rfl
      next different =>
        obtain ⟨first, rest, rfl, -⟩ :=
          head_not_blank (isOpen.named.resolve_left different).2
        rfl
    rw [inner]
    exact startsEntry_snoc_snoc apart none

/-- Every entry that is read is sound, and none but the open one is the top. -/
theorem parseEntries_sound (lines : List Text) (clean : ∀ line ∈ lines, IsCleanLine line) :
    ((∀ entry ∈ parseEntries none lines, IsSound entry ∧ entry.1 ≠ topSection) ∧
      ∀ id held, IsOpen id held lines → ∃ first rest,
        parseEntries (some (id, held)) lines = first :: rest ∧ IsSound first ∧
          first.1 = id ∧ ∀ entry ∈ rest, IsSound entry ∧ entry.1 ≠ topSection) := by
  induction lines using List.twoStepInduction with
  | nil =>
      refine ⟨by simp [parseEntries], fun id held isOpen => ?_⟩
      exact ⟨_, [], rfl, isOpen.isSound, rfl, by simp⟩
  | singleton line =>
      have cleanLine := clean line List.mem_cons_self
      refine ⟨by simp [parseEntries, pushLine], fun id held isOpen => ?_⟩
      have last : IsOpen id held (line :: [] :: []) := ⟨isOpen.clean, isOpen.named, isOpen.apart⟩
      exact ⟨_, [], rfl, (last.pushed cleanLine (entryStart_nil_right line)).isSound, rfl, by simp⟩
  | cons_cons line next lines shorter longer =>
      have cleanLine := clean line List.mem_cons_self
      have later := shorter fun other member =>
        clean other (List.mem_cons_of_mem _ (List.mem_cons_of_mem _ member))
      have behind := longer next fun other member => clean other (List.mem_cons_of_mem _ member)
      cases opens : entryStart line next with
      | some opened =>
          obtain ⟨first, rest, parsed, sound, named, others⟩ :=
            later.2 opened [line] (IsOpen.opened opens cleanLine)
          have valid := (isSectionId_of_entryStart opens).1
          have every : ∀ entry ∈ first :: rest, IsSound entry ∧ entry.1 ≠ topSection := by
            intro entry member
            rcases List.mem_cons.mp member with rfl | member
            · exact ⟨sound, by rw [named]; exact topSection_ne valid⟩
            · exact others entry member
          refine ⟨?_, fun id held isOpen => ?_⟩
          · rw [parseEntries_opens opens, parsed]
            exact every
          · rw [parseEntries_opens opens, parsed]
            exact ⟨_, first :: rest, rfl, isOpen.isSound, rfl, every⟩
      | none =>
          refine ⟨?_, fun id held isOpen => ?_⟩
          · rw [parseEntries, opens]
            exact behind.1
          · rw [parseEntries, opens]
            exact behind.2 id (held ++ [line]) (isOpen.pushed cleanLine opens)

/-- What any text is read as: sound entries, of which only the first can be the
top. -/
theorem parseBaseline_sound (text : Text) :
    (∀ entry ∈ parseBaseline text, IsSound entry) ∧
      ((parseBaseline text).filter fun entry => entry.1 = topSection).length ≤ 1 := by
  have clean : ∀ line ∈ (splitNewline text).map withoutReturns, IsCleanLine line := by
    intro line member
    obtain ⟨raw, rawMember, rfl⟩ := List.mem_map.mp member
    exact isCleanLine_withoutReturns (newline_notMem_of_mem_splitNewline rawMember)
  have noTops : ∀ {entries : List Kept}, (∀ entry ∈ entries, entry.1 ≠ topSection) →
      entries.filter (fun entry => entry.1 = topSection) = [] := by
    intro entries others
    rw [List.filter_eq_nil_iff]
    simpa using others
  rw [parseBaseline]
  split
  · simp
  · dsimp only
    split
    · have open' : IsOpen topSection [] ((splitNewline text).map withoutReturns).tail := by
        refine ⟨by simp, .inl rfl, ?_⟩
        rw [innerLines, if_pos rfl]
        cases ((splitNewline text).map withoutReturns).tail <;> rfl
      obtain ⟨first, rest, parsed, sound, named, others⟩ :=
        (parseEntries_sound _ fun line member => clean line (List.mem_of_mem_tail member)).2
          _ _ open'
      rw [parsed]
      refine ⟨?_, ?_⟩
      · intro entry member
        rcases List.mem_cons.mp member with rfl | member
        · exact sound
        · exact (others entry member).1
      · rw [List.filter_cons, noTops fun entry member => (others entry member).2]
        split <;> simp
    · have parsed := (parseEntries_sound _ clean).1
      refine ⟨fun entry member => (parsed entry member).1, ?_⟩
      rw [noTops fun entry member => (parsed entry member).2]
      simp

end Sound

section RoundTrip

variable {entries : List Kept} {entry : Kept}

theorem mem_topFirst : entry ∈ topFirst entries ↔ entry ∈ entries := by
  rw [topFirst, List.mem_append, List.mem_filter, List.mem_filter]
  by_cases top : entry.1 = topSection <;> simp [top]

theorem hasInnerEntry_settled (isEntry : IsEntry entry) :
    hasInnerEntry (settled entry) = hasInnerEntry entry := by
  have lines := @splitNewline_entryText entry.1 (splitNewline entry.2) isEntry.clean
  rw [hasInnerEntry, settled, lines, hasInnerEntry]
  exact startsEntry_innerLines isEntry.named

theorem parseEntries_rest (every : ∀ entry ∈ entries, IsEntry entry)
    (named : ∀ entry ∈ entries, entry.1 ≠ topSection)
    (whole : ∀ entry ∈ entries, hasInnerEntry entry = false)
    (current : Option (Text × List Text)) :
    parseEntries current (entries.flatMap blockLines ++ [[]]) =
      (current.map entryText).toList ++ entries.map settled := by
  obtain ⟨done, last, parsed, collected⟩ := parseEntries_blocks every named whole current [[]]
  rw [parsed, parseEntries_end, collected]

theorem parseEntries_top {top : Kept} (isTop : top.1 = topSection) (isEntry : IsEntry top)
    (whole : hasInnerEntry top = false) (tail : List Text) :
    ∃ held, parseEntries (some (topSection, [])) (padded (keptLines top) ++ [] :: tail) =
        parseEntries (some (topSection, held)) tail ∧
      entryText (topSection, held) = settled top := by
  have apart : startsEntry (padded (keptLines top)) = false := by
    have inner := startsEntry_inner isEntry
    rw [innerLines, if_pos isTop, whole] at inner
    rw [startsEntry_padded, inner]
  refine ⟨[] ++ padded (keptLines top) ++ [[]], parseEntries_lines apart _ _ _, ?_⟩
  rw [entryText_snoc_nil, entryText_padded, settled_eq, isTop]
  rfl

/-- Rendered entries are read back, the top first and without the blank lines
at their ends, exactly when none has an inner pair and at most one is a top. -/
theorem parseBaseline_renderBaseline_iff (every : ∀ entry ∈ entries, IsEntry entry) :
    parseBaseline (renderBaseline entries) = (topFirst entries).map settled ↔
      (∀ entry ∈ entries, hasInnerEntry entry = false) ∧
        (entries.filter fun entry => entry.1 = topSection).length ≤ 1 := by
  constructor
  · intro same
    obtain ⟨sound, one⟩ := parseBaseline_sound (renderBaseline entries)
    rw [same] at sound one
    refine ⟨?_, ?_⟩
    · intro entry member
      rw [← hasInnerEntry_settled (every entry member)]
      exact (sound _ (List.mem_map_of_mem (mem_topFirst.mpr member))).whole
    · rw [List.filter_map, List.length_map, topFirst, List.filter_append, List.filter_filter,
        List.filter_filter, List.length_append] at one
      have tops : entries.filter (fun entry => decide (entry.1 = topSection) &&
          decide (entry.1 = topSection)) =
            entries.filter fun entry => entry.1 = topSection := by simp
      exact le_trans (by rw [← tops]; exact Nat.le_add_right _ _) one
  · rintro ⟨whole, one⟩
    have othersEvery : ∀ entry ∈ entries.filter (fun entry => entry.1 ≠ topSection),
        IsEntry entry := fun entry member => every entry (List.mem_of_mem_filter member)
    have othersNamed : ∀ entry ∈ entries.filter (fun entry => entry.1 ≠ topSection),
        entry.1 ≠ topSection := fun entry member => by
      simpa using (List.mem_filter.mp member).2
    have othersWhole : ∀ entry ∈ entries.filter (fun entry => entry.1 ≠ topSection),
        hasInnerEntry entry = false :=
      fun entry member => whole entry (List.mem_of_mem_filter member)
    cases tops : entries.filter (fun entry => entry.1 = topSection) with
    | nil =>
        rw [renderBaseline, topFirst, tops, List.nil_append,
          parseBaseline_sections othersEvery othersNamed,
          parseEntries_rest othersEvery othersNamed othersWhole]
        rfl
    | cons top more =>
        obtain rfl : more = [] := by
          rw [tops, List.length_cons] at one
          exact List.eq_nil_of_length_eq_zero (by omega)
        have member : top ∈ entries.filter fun entry => entry.1 = topSection := by simp [tops]
        have isTop : top.1 = topSection := by simpa using (List.mem_filter.mp member).2
        have inside := List.mem_of_mem_filter member
        obtain ⟨held, parsed, text⟩ := parseEntries_top isTop (every top inside)
          (whole top inside) ((entries.filter fun entry => entry.1 ≠ topSection).flatMap
            blockLines ++ [[]])
        rw [renderBaseline, topFirst, tops, List.singleton_append,
          parseBaseline_top isTop (every top inside) othersEvery, parsed,
          parseEntries_rest othersEvery othersNamed othersWhole, Option.map_some, text]
        rfl

end RoundTrip

end Crystalline.Reflection
