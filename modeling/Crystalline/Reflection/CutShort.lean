import Crystalline.Reflection.Settled

/-!
# A named section that is cut

The first entry with an inner pair is read back short, so the section it was
taken from differs from it in its number of lines and is reported as changed.
-/

namespace Crystalline.Reflection

open Text

section Reading

variable {entries : List Kept}

/-- An entry is read back only up to an inner pair of it. -/
structure IsReadShort (entry : Kept) (read : List Kept) : Prop where
  cut : ∃ before line next after id, keptLines entry = before ++ line :: next :: after ∧
    entryStart line next = some id ∧
    reflectedText read entry.1 = some (entryText (entry.1, before)).2

theorem exists_first_cut (cut : ∃ entry ∈ entries, hasInnerEntry entry = true) :
    ∃ before entry after, entries = before ++ entry :: after ∧ hasInnerEntry entry = true ∧
      ∀ other ∈ before, hasInnerEntry other = false := by
  obtain ⟨entry, member, inner⟩ := cut
  cases found : entries.find? hasInnerEntry with
  | none =>
      have none := List.find?_eq_none.mp found entry member
      exact absurd inner none
  | some first =>
      obtain ⟨holds, before, after, whole, apart⟩ := List.find?_eq_some_iff_append.mp found
      exact ⟨before, first, after, whole, holds, by simpa using apart⟩

theorem reflectedText_append {before : List Kept} {id : Text}
    (absent : ∀ entry ∈ before, entry.1 ≠ id) (text : Text) (after : List Kept) :
    reflectedText (before ++ (id, text) :: after) id = some text := by
  have none : before.find? (fun entry => entry.1 = id) = none := by
    rw [List.find?_eq_none]
    simpa using absent
  rw [reflectedText, List.find?_append, none, Option.none_or, List.find?_cons_of_pos (by simp)]
  rfl

section

variable (every : ∀ entry ∈ entries, IsEntry entry)
include every

/-- Among sections, the first with an inner pair is read short. -/
theorem isReadShort_sections (named : ∀ entry ∈ entries, entry.1 ≠ topSection)
    (distinct : ∀ before entry after, entries = before ++ entry :: after →
      hasInnerEntry entry = true → ∀ other ∈ before, other.1 ≠ entry.1)
    (cut : ∃ entry ∈ entries, hasInnerEntry entry = true) (current : Option (Text × List Text))
    (top : ∀ held, current = some held → held.1 = topSection) :
    ∃ entry ∈ entries, hasInnerEntry entry = true ∧
      IsReadShort entry (parseEntries current (entries.flatMap blockLines ++ [[]])) := by
  obtain ⟨before, entry, after, whole, inner, apart⟩ := exists_first_cut cut
  have member : entry ∈ entries := by simp [whole]
  have isEntry := every entry member
  have different := named entry member
  have early : ∀ other ∈ before, other ∈ entries := fun other inside => by simp [whole, inside]
  refine ⟨entry, member, inner, ?_⟩
  obtain ⟨done, last, parsed, collected⟩ := parseEntries_blocks
    (fun other inside => every other (early other inside))
    (fun other inside => named other (early other inside)) apart current
    (blockLines entry ++ (after.flatMap blockLines ++ [[]]))
  obtain ⟨first, shape, opened⟩ := parseEntries_block isEntry different last
    (after.flatMap blockLines ++ [[]])
  have starts := (startsEntry_inner isEntry).trans inner
  obtain ⟨start, line, next, rest, id, lines, noPair, opens⟩ := exists_first_pair starts
  have full : padded (innerLines entry.1 (keptLines entry)) =
      start ++ line :: next :: rest := by
    rw [padded, lines, if_neg (by simp)]
  have regroup : start ++ line :: next :: rest ++ [] :: (after.flatMap blockLines ++ [[]]) =
      start ++ line :: next :: (rest ++ [] :: (after.flatMap blockLines ++ [[]])) := by simp
  refine ⟨first :: start, line, next, rest, id, by rw [shape, lines]; rfl, opens, ?_⟩
  have absent : ∀ other ∈ done ++ (last.map entryText).toList, other.1 ≠ entry.1 := by
    intro other inside
    rw [collected, List.mem_append] at inside
    rcases inside with fromTop | earlier
    · obtain ⟨held, found, rfl⟩ := Option.map_eq_some_iff.mp (Option.mem_toList.mp fromTop)
      have isTop : (entryText held).1 = topSection := top held found
      rw [isTop]
      exact Ne.symm different
    · obtain ⟨other, inside, rfl⟩ := List.mem_map.mp earlier
      exact distinct before entry after whole inner other inside
  rw [whole, List.flatMap_append, List.flatMap_cons, List.append_assoc, List.append_assoc,
    parsed, opened, full, regroup, parseEntries_cut noPair opens, ← List.append_assoc]
  exact reflectedText_append absent _ _

omit every in
/-- A section that shares its id with no other entry stands behind none of its id. -/
theorem apart_of_alone (alone : ∀ entry ∈ entries, hasInnerEntry entry = true →
      entries.filter (fun other => other.1 = entry.1) = [entry])
    {before after : List Kept} {entry : Kept}
    (whole : entries.filter (fun entry => entry.1 ≠ topSection) = before ++ entry :: after)
    (inner : hasInnerEntry entry = true) : ∀ other ∈ before, other.1 ≠ entry.1 := by
  intro other inside same
  have member : entry ∈ entries.filter fun entry => entry.1 ≠ topSection := by
    rw [whole]
    simp
  have single := alone entry (List.mem_of_mem_filter member) inner
  have pair : [other, entry].Sublist (entries.filter fun item => item.1 = entry.1) := by
    have inOrder : [other, entry].Sublist
        (entries.filter fun entry => entry.1 ≠ topSection) := by
      rw [whole]
      exact (List.singleton_sublist.mpr inside).append
        (List.singleton_sublist.mpr List.mem_cons_self)
    have kept := (inOrder.trans List.filter_sublist).filter fun item => item.1 = entry.1
    rwa [List.filter_cons_of_pos (by simpa using same), List.filter_cons_of_pos (by simp),
      List.filter_nil] at kept
  rw [single] at pair
  have lengths := pair.length_le
  simp at lengths

omit every in
/-- A top section with an inner pair is read short. -/
theorem isReadShort_top {top : Kept} (isEntry : IsEntry top) (isTop : top.1 = topSection)
    (inner : hasInnerEntry top = true) (tail : List Text) :
    IsReadShort top (parseEntries (some (topSection, [])) (padded (keptLines top) ++ tail)) := by
  have starts := (startsEntry_inner isEntry).trans inner
  rw [innerLines, if_pos isTop] at starts
  obtain ⟨start, line, next, rest, id, lines, noPair, opens⟩ := exists_first_pair starts
  have full : padded (keptLines top) = start ++ line :: next :: rest := by
    rw [padded, lines, if_neg (by simp)]
  have regroup : start ++ line :: next :: rest ++ tail =
      start ++ line :: next :: (rest ++ tail) := by simp
  refine ⟨start, line, next, rest, id, lines, opens, ?_⟩
  rw [full, regroup, parseEntries_cut noPair opens, isTop]
  exact @reflectedText_append [] topSection (by simp) _ _

omit every in
theorem exists_cut_section (cut : ∃ entry ∈ entries, hasInnerEntry entry = true)
    (noTop : ∀ top ∈ entries, top.1 = topSection → hasInnerEntry top = false) :
    ∃ entry ∈ entries.filter (fun entry => entry.1 ≠ topSection),
      hasInnerEntry entry = true := by
  obtain ⟨entry, member, inner⟩ := cut
  refine ⟨entry, List.mem_filter.mpr ⟨member, ?_⟩, inner⟩
  rw [decide_eq_true_eq]
  intro isTop
  rw [noTop entry member isTop] at inner
  cases inner

/-- Of a file whose entries with an inner pair share their ids with no other
entry, some entry with such a pair is read short. -/
theorem isReadShort_render (one : (entries.filter fun entry => entry.1 = topSection).length ≤ 1)
    (alone : ∀ entry ∈ entries, hasInnerEntry entry = true →
      entries.filter (fun other => other.1 = entry.1) = [entry])
    (cut : ∃ entry ∈ entries, hasInnerEntry entry = true) :
    ∃ entry ∈ entries, hasInnerEntry entry = true ∧
      IsReadShort entry (parseBaseline (renderBaseline entries)) := by
  have othersEvery : ∀ entry ∈ entries.filter (fun entry => entry.1 ≠ topSection),
      IsEntry entry := fun entry member => every entry (List.mem_of_mem_filter member)
  have othersNamed : ∀ entry ∈ entries.filter (fun entry => entry.1 ≠ topSection),
      entry.1 ≠ topSection := fun entry member => by
    simpa using (List.mem_filter.mp member).2
  -- the first section with an inner pair, where no top section has one
  have short (noTop : ∀ top ∈ entries, top.1 = topSection → hasInnerEntry top = false)
      (current : Option (Text × List Text))
      (top : ∀ held, current = some held → held.1 = topSection) :
      ∃ entry ∈ entries, hasInnerEntry entry = true ∧ IsReadShort entry (parseEntries current
        ((entries.filter fun entry => entry.1 ≠ topSection).flatMap blockLines ++ [[]])) := by
    obtain ⟨entry, member, short⟩ := isReadShort_sections othersEvery othersNamed
      (fun _ _ _ whole inner => apart_of_alone alone whole inner) (exists_cut_section cut noTop)
      current top
    exact ⟨entry, List.mem_of_mem_filter member, short⟩
  cases tops : entries.filter (fun entry => entry.1 = topSection) with
  | nil =>
      have noTop : ∀ top ∈ entries, top.1 = topSection → hasInnerEntry top = false := by
        intro top member isTop
        have inside : top ∈ entries.filter fun entry => entry.1 = topSection :=
          List.mem_filter.mpr ⟨member, decide_eq_true isTop⟩
        rw [tops] at inside
        cases inside
      rw [renderBaseline, topFirst, tops, List.nil_append,
        parseBaseline_sections othersEvery othersNamed]
      exact short noTop none (by simp)
  | cons top more =>
      obtain rfl : more = [] := by
        rw [tops, List.length_cons] at one
        exact List.eq_nil_of_length_eq_zero (by omega)
      have member : top ∈ entries.filter fun entry => entry.1 = topSection := by simp [tops]
      have isTop : top.1 = topSection := by simpa using (List.mem_filter.mp member).2
      have inside := List.mem_of_mem_filter member
      rw [renderBaseline, topFirst, tops, List.singleton_append,
        parseBaseline_top isTop (every top inside) othersEvery]
      cases inner : hasInnerEntry top with
      | true => exact ⟨top, inside, inner, isReadShort_top (every top inside) isTop inner _⟩
      | false =>
          have noTop : ∀ other ∈ entries, other.1 = topSection → hasInnerEntry other = false := by
            intro other otherMember otherTop
            have found : other ∈ entries.filter fun entry => entry.1 = topSection :=
              List.mem_filter.mpr ⟨otherMember, decide_eq_true otherTop⟩
            rw [tops, List.mem_singleton] at found
            rw [found, inner]
          obtain ⟨held, parsed, -⟩ := parseEntries_top isTop (every top inside) inner
            ((entries.filter fun entry => entry.1 ≠ topSection).flatMap blockLines ++ [[]])
          rw [parsed]
          refine short noTop _ ?_
          rintro open' ⟨rfl⟩
          rfl

end

end Reading

section Lengths

theorem whitespace_of_mem_trimEnd {line : Text} (blank : trimEnd line = []) :
    ∀ char ∈ line, isWhitespace char = true := by
  rw [trimEnd, trimEndMatches, List.rdropWhile_eq_nil_iff] at blank
  exact blank

variable {line next id : Text}

theorem trimEnd_heading (opens : entryStart line next = some id) :
    (trimEnd line).isEmpty = false := by
  rw [List.isEmpty_eq_false_iff]
  intro blank
  have hash : '#' ∈ line := by
    obtain ⟨heading, read, -⟩ := Option.bind_eq_some_iff.mp opens
    rw [parseHeading] at read
    split at read
    · cases read
    · dsimp only at read
      split at read
      · cases read
      next hashes =>
        simp only [Bool.or_eq_true, decide_eq_true_eq, not_or] at hashes
        cases run : (line.drop (indentOf line)).takeWhile (· == '#') with
        | nil => simp [run] at hashes
        | cons char rest =>
            have member : char ∈ (line.drop (indentOf line)).takeWhile (· == '#') := by simp [run]
            have same : char = '#' := by simpa using List.mem_takeWhile_imp member
            rw [← same]
            exact List.mem_of_mem_drop ((List.takeWhile_prefix _).subset member)
  exact absurd (whitespace_of_mem_trimEnd blank '#' hash) (by decide)

theorem newline_notMem_normalLines (text : Text) : ∀ line ∈ normalLines text, '\n' ∉ line := by
  intro line member
  obtain ⟨raw, rawMember, rfl⟩ :=
    List.mem_map.mp ((List.rdropWhile_prefix _ _).subset member)
  intro inside
  exact newline_notMem_of_mem_splitNewline rawMember ((List.rdropWhile_prefix _ _).subset inside)

theorem normalLines_last {text : Text} {before : List Text} {last : Text}
    (whole : normalLines text = before ++ [last]) : last ≠ [] := by
  have nonempty : normalLines text ≠ [] := by simp [whole]
  have kept := List.rdropWhile_last_not List.isEmpty
    ((splitNewline text).map trimEnd) nonempty
  have same : (normalLines text).getLast nonempty = last := by simp [whole]
  change ¬ List.isEmpty ((normalLines text).getLast nonempty) = true at kept
  rw [same] at kept
  simpa using kept

/-- The lines of a normalized text are read off it. -/
theorem lines_normalizeSectionText (text : Text) :
    (lines (normalizeSectionText text)).length = (normalLines text).length := by
  have absent := newline_notMem_normalLines text
  have last : ∀ before last, normalLines text = before ++ [last] → last ≠ [] :=
    fun _ _ => normalLines_last
  rw [normalizeSectionText_eq, lines, List.length_map]
  generalize normalLines text = pieces at absent last
  cases pieces with
  | nil => rfl
  | cons line pieces =>
      induction pieces generalizing line with
      | nil =>
          have whole : joinLines [line] = line := by simp [joinLines]
          rw [whole, splitInclusive_of_not_mem (absent line List.mem_cons_self)
            (last [] line rfl)]
      | cons next pieces induction =>
          have whole : joinLines (line :: next :: pieces) =
              line ++ '\n' :: joinLines (next :: pieces) := rfl
          have later := induction next
            (fun other member => absent other (List.mem_cons_of_mem _ member))
            (fun before end' shape => last (line :: before) end' (by rw [shape]; rfl))
          rw [whole, splitInclusive_body_append (absent line List.mem_cons_self),
            List.length_cons, later]
          rfl

theorem length_untickedLines (fence : FenceTracker) (lines : List Text) :
    (untickedLines fence lines).length = lines.length := by
  induction lines generalizing fence with
  | nil => rfl
  | cons line lines induction => rw [untickedLines, List.length_cons, induction, List.length_cons]

theorem unticked_ok {line result : Text} (read : unticked line = some result) :
    ∃ before after, result = before ++ " [ ]".toList ++ after ∧
      (∀ char ∈ before, char ∈ line) ∧ ∀ char ∈ after, char ∈ line := by
  simp only [unticked, Option.bind_eq_bind, Option.bind_eq_some_iff, Option.some.injEq] at read
  obtain ⟨length, -, item, stripped, tail, boxed, rfl⟩ := read
  have inRest : ∀ char ∈ line.dropWhile isQuoteChar, char ∈ line := fun char member =>
    (List.dropWhile_suffix _).subset member
  refine ⟨_, tail, rfl, ?_, ?_⟩
  · intro char member
    rcases List.mem_append.mp member with quote | marker
    · exact (List.takeWhile_prefix _).subset quote
    · exact inRest char (List.mem_of_mem_take marker)
  · intro char member
    obtain ⟨box, -, found⟩ := List.exists_of_findSome?_eq_some boxed
    have inItem : char ∈ item := by
      rw [stripPrefix_eq_some_iff.mp found]
      exact List.mem_append_right _ member
    have inDropped : char ∈ (line.dropWhile isQuoteChar).drop length := by
      rw [stripPrefix_eq_some_iff.mp stripped]
      exact List.mem_append_right _ inItem
    exact inRest char (List.mem_of_mem_drop inDropped)

section

variable {fence : FenceTracker} {lines : List Text}

theorem newline_notMem_untickedLines (absent : ∀ line ∈ lines, '\n' ∉ line) :
    ∀ line ∈ untickedLines fence lines, '\n' ∉ line := by
  induction lines generalizing fence with
  | nil => simp [untickedLines]
  | cons first lines induction =>
      have head := absent first List.mem_cons_self
      intro line member
      rw [untickedLines] at member
      rcases List.mem_cons.mp member with rfl | later
      · split
        · exact head
        · cases read : unticked first with
          | none => exact head
          | some result =>
              obtain ⟨before, after, rfl, inBefore, inAfter⟩ := unticked_ok read
              intro inside
              rcases List.mem_append.mp inside with inside | inside
              · rcases List.mem_append.mp inside with inside | inside
                · exact head (inBefore _ inside)
                · exact absurd inside (by decide)
              · exact head (inAfter _ inside)
      · exact induction (fun other otherMember =>
          absent other (List.mem_cons_of_mem _ otherMember)) line later

/-- A single line that is not blank stays more than a blank line. -/
theorem untickedLines_ne (bare : lines ≠ [[]]) : untickedLines fence lines ≠ [[]] := by
  intro same
  cases lines with
  | nil => cases same
  | cons line lines =>
      rw [untickedLines] at same
      obtain ⟨head, tail⟩ := List.cons.inj same
      have none : lines = [] := by
        have lengths := congrArg List.length tail
        rw [length_untickedLines] at lengths
        exact List.eq_nil_of_length_eq_zero lengths
      apply bare
      rw [none]
      split at head
      · rw [head]
      · cases read : unticked line with
        | none =>
            rw [read] at head
            exact congrArg (· :: []) head
        | some result =>
            rw [read, Option.getD_some] at head
            obtain ⟨before, after, shape, -, -⟩ := unticked_ok read
            rw [head] at shape
            simp at shape

end

theorem normalLines_ne (text : Text) : normalLines text ≠ [[]] := fun bare =>
  @normalLines_last text [] [] bare rfl

/-- Texts that normalize alike, or that differ in task boxes alone, have as
many lines. -/
theorem length_of_same {before after : Text}
    (same : normalizeSectionText before = normalizeSectionText after ∨
      sameButTaskBoxes before after = true) :
    (normalLines before).length = (normalLines after).length := by
  rcases same with same | boxes
  · rw [normalizeSectionText_eq, normalizeSectionText_eq] at same
    rw [joinLines_inj (newline_notMem_normalLines before) (newline_notMem_normalLines after)
      (normalLines_ne before) (normalLines_ne after) same]
  · rw [sameButTaskBoxes, decide_eq_true_eq, withoutBoxes, withoutBoxes] at boxes
    have bare : ∀ text, lines (normalizeSectionText text) ≠ [[]] := by
      intro text bare
      have one := lines_normalizeSectionText text
      rw [bare] at one
      obtain ⟨line, single⟩ := List.length_eq_one_iff.mp one.symm
      have notBlank := @normalLines_last text [] line single
      rw [normalizeSectionText_eq, single] at bare
      have whole : joinLines [line] = line := by simp [joinLines]
      have absent : '\n' ∉ line := newline_notMem_normalLines text line (by simp [single])
      rw [whole, lines, splitInclusive_of_not_mem absent notBlank, List.map_cons,
        List.map_nil] at bare
      have blank : lineBody line = [] := (List.cons.inj bare).1
      rw [lineBody] at blank
      cases ended : stripSuffix ['\n'] line with
      | none =>
          rw [ended] at blank
          exact notBlank blank
      | some body =>
          rw [stripSuffix_eq_some_iff.mp ended] at absent
          simp at absent
    have joined := joinLines_inj
      (newline_notMem_untickedLines fun _ => newline_notMem_of_mem_lines)
      (newline_notMem_untickedLines fun _ => newline_notMem_of_mem_lines)
      (untickedLines_ne (bare before)) (untickedLines_ne (bare after)) boxes
    have lengths := congrArg List.length joined
    rwa [length_untickedLines, length_untickedLines, lines_normalizeSectionText,
      lines_normalizeSectionText] at lengths

theorem length_short {entry : Kept} (isEntry : IsEntry entry) {before after : List Text}
    (kept : keptLines entry = before ++ line :: next :: after)
    (opens : entryStart line next = some id) :
    (normalLines (entryText (entry.1, before)).2).length < (normalLines entry.2).length := by
  have clean : ∀ other ∈ before, IsCleanLine other := by
    intro other member
    apply isEntry.clean other
    apply mem_keptLines
    rw [kept]
    exact List.mem_append_left _ member
  have whole : normalLines entry.2 = before.map trimEnd ++
      trimEnd line :: ((next :: after).map trimEnd).rdropWhile List.isEmpty := by
    rw [normalLines, ← rdropWhile_map_trimEnd]
    change ((keptLines entry).map trimEnd).rdropWhile List.isEmpty = _
    rw [kept, List.map_append, List.map_cons, rdropWhile_append_cons (trimEnd_heading opens)]
  have short := (List.rdropWhile_prefix List.isEmpty (before.map trimEnd)).length_le
  rw [List.length_map] at short
  rw [normalLines_entryText clean, whole, List.length_append, List.length_cons, List.length_map]
  omega

end Lengths

section Unsettled

variable {sha256Hex : Text → Text} {page baseline : Text} {ids : List Text}

/-- Of the texts compared under an id of the page, none collide. -/
def NoCollision (sha256Hex : Text → Text) (page baseline : Text) (ids : List Text) : Prop :=
  ∀ part ∈ splitSections page, ∀ before,
    part.id.bind (reflectedText (parseBaseline (advanceBaseline baseline page ids))) =
        some before →
      sectionHash sha256Hex before = sectionHash sha256Hex part.text →
        normalizeSectionText before = normalizeSectionText part.text

theorem uncut_of_settles (distinct : HasDistinctIds page)
    (apart : NoCollision sha256Hex page baseline ids)
    (settles : Settles sha256Hex page baseline ids) : NoneCut page ids := by
  intro part member id named carries
  by_contra cut
  have entries : ∀ {part id}, part ∈ splitSections page → id ∈ ids → part.id = some id →
      (advancedEntries (parseBaseline baseline) (splitSections page) ids).filter
        (fun entry => entry.1 = id) = [(id, part.text)] := by
    intro part id member named carries
    rw [filter_advancedEntries, if_pos named, pageEntry_of_distinct distinct member carries]
  have inside : (id, part.text) ∈
      advancedEntries (parseBaseline baseline) (splitSections page) ids := by
    have single := entries member named carries
    exact List.mem_of_mem_filter (by rw [single]; exact List.mem_singleton.mpr rfl)
  obtain ⟨entry, entryMember, inner, before, line, next, after, opened, kept, opens, read⟩ :=
    isReadShort_render isEntry_advanced tops_advanced (by
      intro entry entryMember inner
      obtain ⟨entryNamed, other, otherMember, otherCarries, text⟩ :=
        hasInner_advanced entryMember inner
      rw [entries otherMember entryNamed otherCarries, text])
      ⟨_, inside, by simpa using cut⟩
  obtain ⟨entryNamed, other, otherMember, otherCarries, text⟩ :=
    hasInner_advanced entryMember inner
  have shorter := length_short (isEntry_advanced entry entryMember) kept opens
  have found : other.id.bind
      (reflectedText (parseBaseline (advanceBaseline baseline page ids))) =
        some (entryText (entry.1, before)).2 := by
    rw [otherCarries, Option.bind_some]
    exact read
  have differs : ¬ (normalLines (entryText (entry.1, before)).2).length =
      (normalLines other.text).length := by
    rw [text]
    omega
  have hashes : sectionHash sha256Hex (entryText (entry.1, before)).2 ≠
      sectionHash sha256Hex other.text := fun same =>
    differs (length_of_same (.inl (apart other otherMember _ found same)))
  have boxes : sameButTaskBoxes (entryText (entry.1, before)).2 other.text = false := by
    cases same : sameButTaskBoxes (entryText (entry.1, before)).2 other.text with
    | false => rfl
    | true => exact absurd (length_of_same (.inr same)) differs
  have kind : changeKind sha256Hex
      (parseBaseline (advanceBaseline baseline page ids)) other = some .changed := by
    rw [changeKind, found]
    simp [hashes, boxes]
  obtain ⟨change, changed, about⟩ : ∃ change, pageChange sha256Hex
      (parseBaseline (advanceBaseline baseline page ids)) other = some change ∧
        change.id = other.id := by
    rw [pageChange, kind]
    exact ⟨_, rfl, rfl⟩
  have changeMember : change ∈
      feedbackChanges sha256Hex page (advanceBaseline baseline page ids) :=
    List.mem_append_left _ (List.mem_filterMap.mpr ⟨other, otherMember, changed⟩)
  rw [settles] at changeMember
  have unnamed := (List.mem_filter.mp changeMember).2
  rw [isNamed, about, otherCarries] at unnamed
  simp [entryNamed] at unnamed

/-- Reflecting sections settles them and only them where none of them has a
`##` heading over an id line in its text, and nowhere else as long as the hash
tells the compared texts apart.  Entries cut from pages are read back, the top
first and without blank lines at their ends, exactly when none has such a pair
and at most one is a top. -/
theorem settles_iff_uncut (distinct : HasDistinctIds page) :
    (NoneCut page ids → Settles sha256Hex page baseline ids) ∧
      (NoCollision sha256Hex page baseline ids → Settles sha256Hex page baseline ids →
        NoneCut page ids) ∧
      ∀ entries : List Kept,
        (∀ entry ∈ entries, ∃ source, ∃ part ∈ splitSections source,
          part.id = some entry.1 ∧ part.text = entry.2) →
        (parseBaseline (renderBaseline entries) = (topFirst entries).map settled ↔
          (∀ entry ∈ entries, hasInnerEntry entry = false) ∧
            (entries.filter fun entry => entry.1 = topSection).length ≤ 1) := by
  refine ⟨settles_of_uncut distinct, uncut_of_settles distinct, ?_⟩
  intro entries cutFromPages
  apply parseBaseline_renderBaseline_iff
  intro entry member
  obtain ⟨source, part, inside, carries, text⟩ := cutFromPages entry member
  have isEntry := isEntry_of_page inside carries
  rwa [text] at isEntry

end Unsettled

section Fenced

/-- A page whose one section shows in a fence how a section is written. -/
def fencedPage : Text :=
  "## A\n<!-- r:aaaa -->\n~~~\n## B\n<!-- r:bbbb -->\n~~~\n".toList

theorem settles_iff_uncut_fenced :
    (NoneCut fencedPage ["aaaa".toList] →
        Settles (fun text => text) fencedPage [] ["aaaa".toList]) ∧
      (NoCollision (fun text => text) fencedPage [] ["aaaa".toList] →
        Settles (fun text => text) fencedPage [] ["aaaa".toList] →
          NoneCut fencedPage ["aaaa".toList]) ∧
      ∀ entries : List Kept,
        (∀ entry ∈ entries, ∃ source, ∃ part ∈ splitSections source,
          part.id = some entry.1 ∧ part.text = entry.2) →
        (parseBaseline (renderBaseline entries) = (topFirst entries).map settled ↔
          (∀ entry ∈ entries, hasInnerEntry entry = false) ∧
            (entries.filter fun entry => entry.1 = topSection).length ≤ 1) :=
  settles_iff_uncut (by unfold HasDistinctIds; decide)

theorem changeKind_ne_removed (sha256Hex : Text → Text) (reflected : List Kept)
    (part : Section) : changeKind sha256Hex reflected part ≠ some .removed := by
  rw [changeKind]
  split
  · split <;> simp
  · split <;> simp

/-- Right after the section was reflected, its fenced example is reported as a
removed section, whatever the hash. -/
theorem fenced_example_unsettled :
    HasDistinctIds fencedPage ∧
      ∀ sha256Hex, ¬ Settles sha256Hex fencedPage [] ["aaaa".toList] := by
  refine ⟨by unfold HasDistinctIds; decide, ?_⟩
  intro sha256Hex settles
  have reported : removedChange ("bbbb".toList, "## B\n~~~\n".toList) ∈
      feedbackChanges sha256Hex fencedPage
        (advanceBaseline [] fencedPage ["aaaa".toList]) :=
    List.mem_append_right _ (List.mem_map_of_mem (by decide))
  rw [settles] at reported
  rcases List.mem_append.mp (List.mem_of_mem_filter reported) with onPage | off
  · obtain ⟨part, -, change⟩ := List.mem_filterMap.mp onPage
    obtain ⟨kind, found, same⟩ := Option.map_eq_some_iff.mp change
    have isRemoved : kind = .removed := congrArg SectionChange.kind same
    rw [isRemoved] at found
    exact changeKind_ne_removed _ _ _ found
  · cases off

end Fenced

end Crystalline.Reflection
