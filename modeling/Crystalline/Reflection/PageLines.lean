import Crystalline.Reflection.Sections

/-!
# The lines of a page

A `##` heading and the id under it, read from the lines of a body.  The id is
on the next line, so what a page says of its headings is a walk over its lines.
-/

namespace Crystalline.Reflection

open Text

/-- A line as the walkers read it: without its line ending. -/
def bareLine (raw : Text) : Text := withoutReturns (withoutNewline raw)

/-- The tracker after a line. -/
def nextFence (fence : FenceTracker) (raw : Text) : FenceTracker :=
  (fence.inFence (bareLine raw)).2

/-- The tracker after some lines. -/
def fenceAfter (fence : FenceTracker) (lines : List Text) : FenceTracker :=
  lines.foldl nextFence fence

/-- The text of a `##` heading line outside fences. -/
def twoHeading (fence : FenceTracker) (raw : Text) : Option Text :=
  if (fence.inFence (bareLine raw)).1 then none
  else (parseHeading (bareLine raw)).bind fun heading =>
    if heading.1 = 2 then some heading.2 else none

/-- The id a line spells when it stands under a heading. -/
def rawId (raw : Text) : Option Text :=
  parseIdLine (trimEndMatches (fun char => char == '\n' || char == '\r') raw)

/-- The `##` headings of the lines from `offset` on. -/
def levelTwoFrom (fence : FenceTracker) (offset : Nat) (lines : List Text) : List HeadingSpan :=
  (headingSpansFrom fence offset lines).filter fun heading => heading.level = 2

/-- The headings of a page, each with the id it carries. -/
def headingIds (source : Text) : List (Text × Option Text) :=
  (levelTwo source).map fun heading =>
    (trim heading.text, (idUnder source heading).map Prod.fst)

/-- The same, read from the lines of a body. -/
def headingIdsFrom (fence : FenceTracker) : List Text → List (Text × Option Text)
  | [] => []
  | raw :: lines =>
      ((twoHeading fence raw).map fun text => (trim text, lines.head?.bind rawId)).toList ++
        headingIdsFrom (nextFence fence raw) lines

/-- The lines of the body. -/
def bodyLines (source : Text) : List Text := splitInclusive (source.drop (bodyOffset source))

theorem bareLine_newline (body : Text) : bareLine (body ++ ['\n']) = withoutReturns body := by
  rw [bareLine, withoutNewline_snoc]

theorem bareLine_of_not_mem {line : Text} (absent : '\n' ∉ line) :
    bareLine line = withoutReturns line := by
  rw [bareLine, withoutNewline_of_not_mem absent]

section Fences

variable {fence : FenceTracker} {raw text id : Text} {before after : List Text}

@[simp] theorem fenceAfter_nil (fence : FenceTracker) : fenceAfter fence [] = fence := rfl

@[simp] theorem fenceAfter_cons (fence : FenceTracker) (raw : Text) (lines : List Text) :
    fenceAfter fence (raw :: lines) = fenceAfter (nextFence fence raw) lines := rfl

theorem fenceAfter_append (fence : FenceTracker) (before after : List Text) :
    fenceAfter fence (before ++ after) = fenceAfter (fenceAfter fence before) after :=
  List.foldl_append

theorem twoHeading_opened (opened : Char × Nat) (raw : Text) :
    twoHeading (some opened) raw = none := by
  rw [twoHeading, if_pos]
  simp only [FenceTracker.inFence]
  split
  · split <;> rfl
  · rfl

theorem twoHeading_closed (found : twoHeading fence raw = some text) :
    fence = none ∧ nextFence fence raw = none := by
  cases fence with
  | some opened =>
      rw [twoHeading_opened] at found
      cases found
  | none =>
      refine ⟨rfl, ?_⟩
      cases marker : fenceMarker (bareLine raw) with
      | none => simp [nextFence, FenceTracker.inFence, marker]
      | some opens => simp [twoHeading, FenceTracker.inFence, marker] at found

theorem isPrefix_bareLine (raw : Text) : bareLine raw <+: raw := by
  have first : withoutNewline raw <+: raw := by
    rw [withoutNewline]
    cases found : stripSuffix ['\n'] raw with
    | none => exact List.prefix_refl raw
    | some body => exact ⟨['\n'], (stripSuffix_eq_some_iff.mp found).symm⟩
  exact (withoutReturns_front _).trans first

theorem head_trim_unended {spaces rest : Text} {char : Char} (blank : IsBlank spaces)
    (visible : isWhitespace char = false) (line : bareLine raw = spaces ++ char :: rest) :
    (trim (trimEndMatches (fun char => char == '\n' || char == '\r') raw)).head? = some char := by
  obtain ⟨ending, whole⟩ := isPrefix_bareLine raw
  rw [line, List.append_assoc, List.cons_append] at whole
  have other : (char == '\n' || char == '\r') = false := by
    by_cases newline : char = '\n'
    · rw [newline] at visible
      cases visible
    · by_cases isReturn : char = '\r'
      · rw [isReturn] at visible
        cases visible
      · simp [newline, isReturn]
  have ended := @rdropWhile_append_cons Char (fun char => char == '\n' || char == '\r') char
    other spaces (rest ++ ending)
  have kept := @rdropWhile_append_cons Char isWhitespace char visible []
    ((rest ++ ending).rdropWhile fun char => char == '\n' || char == '\r')
  rw [List.nil_append, List.nil_append] at kept
  rw [← whole, trimEndMatches, ended, trim, trimStart_blank_append blank, trimStart,
    trimStartMatches, List.dropWhile_cons_of_neg (by simp [visible]), trimEnd, trimEndMatches,
    kept]
  rfl

/-- A blank line, or one that starts with a comment, opens no fence and is no
heading. -/
theorem plain_of_head (opens : ∀ char,
    (trim (trimEndMatches (fun char => char == '\n' || char == '\r') raw)).head? = some char →
      char = '<') :
    fenceMarker (bareLine raw) = none ∧ parseHeading (bareLine raw) = none := by
  have cut : bareLine raw = (bareLine raw).takeWhile (· == ' ') ++
      (bareLine raw).drop (indentOf (bareLine raw)) := by
    have drops := congrArg (List.drop ((bareLine raw).takeWhile (· == ' ')).length)
      (@List.takeWhile_append_dropWhile _ (· == ' ') (bareLine raw))
    rw [List.drop_left] at drops
    rw [indentOf, ← drops, List.takeWhile_append_dropWhile]
  have blank : IsBlank ((bareLine raw).takeWhile (· == ' ')) := by
    intro char member
    have space : char = ' ' := by simpa using List.mem_takeWhile_imp member
    rw [space]
    rfl
  constructor
  · rw [fenceMarker]
    split
    · rfl
    · cases visible : (bareLine raw).drop (indentOf (bareLine raw)) with
      | nil => rfl
      | cons first rest =>
          rw [visible] at cut
          simp only
          split
          · rfl
          next marks =>
            have shown : isWhitespace first = false := by
              simp only [Bool.and_eq_true, decide_eq_true_eq, not_and, not_not] at marks
              by_cases tick : first = '\x60'
              · rw [tick]
                rfl
              · rw [marks tick]
                rfl
            have opened := opens first (head_trim_unended blank shown cut)
            rw [opened] at marks
            exact absurd rfl marks
  · rw [parseHeading]
    split
    · rfl
    · cases visible : (bareLine raw).drop (indentOf (bareLine raw)) with
      | nil => rfl
      | cons first rest =>
          rw [visible] at cut
          by_cases hash : first = '#'
          · have shown : isWhitespace first = false := by
              rw [hash]
              rfl
            have opened := opens first (head_trim_unended blank shown cut)
            rw [opened] at hash
            cases hash
          · simp [hash]

theorem rawId_plain (spells : rawId raw = some id) :
    fenceMarker (bareLine raw) = none ∧ parseHeading (bareLine raw) = none := by
  obtain ⟨inner, opened, -⟩ := Option.bind_eq_some_iff.mp spells
  obtain ⟨after, prefixed, -⟩ := Option.bind_eq_some_iff.mp opened
  have starts := stripPrefix_eq_some_iff.mp prefixed
  apply plain_of_head
  intro char head
  rw [starts] at head
  exact (Option.some.inj head).symm

theorem twoHeading_rawId (fence : FenceTracker) (spells : rawId raw = some id) :
    twoHeading fence raw = none := by
  rw [twoHeading, (rawId_plain spells).2]
  split <;> rfl

theorem nextFence_rawId (spells : rawId raw = some id) : nextFence none raw = none := by
  rw [nextFence, FenceTracker.inFence, (rawId_plain spells).1]

theorem headingIdsFrom_heading (found : twoHeading fence raw = some text) (lines : List Text) :
    headingIdsFrom fence (raw :: lines) =
      (trim text, lines.head?.bind rawId) :: headingIdsFrom none lines := by
  rw [headingIdsFrom, found, (twoHeading_closed found).2]
  rfl

theorem headingIdsFrom_plain (found : twoHeading fence raw = none) (lines : List Text) :
    headingIdsFrom fence (raw :: lines) = headingIdsFrom (nextFence fence raw) lines := by
  rw [headingIdsFrom, found]
  rfl

theorem headingIdsFrom_idLine (spells : rawId raw = some id) (lines : List Text) :
    headingIdsFrom none (raw :: lines) = headingIdsFrom none lines := by
  rw [headingIdsFrom_plain (twoHeading_rawId none spells), nextFence_rawId spells]

end Fences

section Body

variable {source : Text} {lines : List Text} {parts : FrontmatterParts}

theorem bodyOffset_source (wellCut : parts.WellCut) :
    bodyOffset parts.source =
      (parts.openLine ++ parts.yaml ++ parts.closeLine).length := by
  rw [bodyOffset, wellCut.locate_source]
  simp [Nat.add_assoc]

theorem bodyOffset_cases (source : Text) :
    (locate source = none ∧ bodyOffset source = 0) ∨
      ∃ parts : FrontmatterParts, parts.WellCut ∧ parts.source = source := by
  cases found : locate source with
  | none =>
      refine .inl ⟨rfl, ?_⟩
      rw [bodyOffset, found]
      rfl
  | some located =>
      have cut : splitFrontmatter source =
          some (FrontmatterParts.slicesAt source located) := by
        rw [splitFrontmatter, found]
        rfl
      obtain ⟨wellCut, whole⟩ := splitFrontmatter_eq_some_iff.mp cut
      exact .inr ⟨_, wellCut, whole.symm⟩

theorem bodyOffset_le (source : Text) : bodyOffset source ≤ source.length := by
  rcases bodyOffset_cases source with ⟨-, start⟩ | ⟨parts, wellCut, rfl⟩
  · omega
  · rw [bodyOffset_source wellCut, FrontmatterParts.source]
    exact (List.prefix_append _ _).length_le

theorem take_bodyOffset (source : Text) :
    (source.take (bodyOffset source)).length = bodyOffset source := by
  rw [List.length_take, Nat.min_eq_left (bodyOffset_le source)]

theorem take_append_bodyLines (source : Text) :
    source.take (bodyOffset source) ++ (bodyLines source).flatten = source := by
  rw [bodyLines, flatten_splitInclusive, List.take_append_drop]

theorem splitInclusive_bodyLines (source : Text) :
    splitInclusive (bodyLines source).flatten = bodyLines source := by
  rw [bodyLines, flatten_splitInclusive]

/-- A body can be exchanged for one that has no delimiter line of its own. -/
theorem bodyOffset_exchange (cut : splitInclusive lines.flatten = lines)
    (empty : bodyLines source = [] → lines = [])
    (head : ∀ line, lines.head? = some line → isDelimiter line = true →
      (bodyLines source).head? = some line)
    (tail : ∀ line ∈ lines.tail, isDelimiter line = true → line ∈ (bodyLines source).tail) :
    bodyOffset (source.take (bodyOffset source) ++ lines.flatten) = bodyOffset source := by
  rcases bodyOffset_cases source with ⟨absent, start⟩ | ⟨parts, wellCut, rfl⟩
  · have whole : bodyLines source = splitInclusive source := by
      rw [bodyLines, start, List.drop_zero]
    rw [whole] at head tail
    suffices unfound : locate lines.flatten = none by
      rw [start, List.take_zero, List.nil_append, bodyOffset, unfound]
      rfl
    rw [locate, cut]
    cases lines with
    | nil => rfl
    | cons first rest =>
        by_cases delimits : isDelimiter first = true
        · obtain ⟨others, pieces⟩ :=
            List.head?_eq_some_iff.mp (head first rfl delimits)
          rw [locate, pieces] at absent
          rw [pieces] at tail
          simp only [delimits, if_true, Option.map_eq_none_iff] at absent ⊢
          apply locateClose_of_undelimited
          intro line member
          by_contra isDelimiter
          have found := tail line member (by simpa using isDelimiter)
          rw [locateClose_eq_none absent line found] at isDelimiter
          exact isDelimiter rfl
        · simp only [delimits]
          rfl
  · have front : parts.source.take (bodyOffset parts.source) =
        parts.openLine ++ parts.yaml ++ parts.closeLine := by
      rw [bodyOffset_source wellCut]
      exact List.take_left
    have ends : IsLine parts.closeLine ∨
        '\n' ∉ parts.closeLine ∧ parts.closeLine ≠ [] ∧ lines.flatten = [] := by
      rcases wellCut.closeLine_ends with ended | ⟨absent, nonempty, bare⟩
      · exact .inl ended
      · refine .inr ⟨absent, nonempty, ?_⟩
        rw [empty, List.flatten_nil]
        rw [bodyLines, bodyOffset_source wellCut, FrontmatterParts.source, List.drop_left, bare]
        rfl
    have changed : ({ parts with body := lines.flatten } : FrontmatterParts).WellCut :=
      ⟨wellCut.openLine_isLine, wellCut.openLine_delimits, wellCut.yaml_terminated,
        wellCut.yaml_undelimited, wellCut.closeLine_delimits, ends⟩
    have same := bodyOffset_source changed
    rw [FrontmatterParts.source] at same
    rw [front, same, bodyOffset_source wellCut]

end Body

section Walks

variable {fence : FenceTracker} {raw : Text} {lines : List Text}

theorem splitInclusive_tail (cut : splitInclusive (raw :: lines).flatten = raw :: lines) :
    splitInclusive lines.flatten = lines := by
  rcases (@isLine_of_splitInclusive_eq_append _ _ [] _ cut).2 with ended | ⟨-, -, rfl⟩
  · rw [List.flatten_cons, splitInclusive_line_append ended] at cut
    exact (List.cons.inj cut).2
  · rfl

theorem levelTwoFrom_cons (fence : FenceTracker) (offset : Nat) (raw : Text) (lines : List Text) :
    levelTwoFrom fence offset (raw :: lines) =
      ((twoHeading fence raw).map fun text =>
        HeadingSpan.mk 2 text offset (offset + raw.length)).toList ++
        levelTwoFrom (nextFence fence raw) (offset + raw.length) lines := by
  rw [levelTwoFrom, headingSpansFrom, twoHeading, nextFence, bareLine]
  split
  · rfl
  · cases parseHeading (withoutReturns (withoutNewline raw)) with
    | none => rfl
    | some heading =>
        obtain ⟨level, text⟩ := heading
        by_cases two : level = 2
        · simp [two, levelTwoFrom]
        · simp [two, levelTwoFrom]

theorem levelTwo_eq (source : Text) :
    levelTwo source = levelTwoFrom none (bodyOffset source) (bodyLines source) := rfl

variable {source before : Text}

theorem idUnder_eq {heading : HeadingSpan} (whole : source = before ++ lines.flatten)
    (ends : heading.lineEnd = before.length) (cut : splitInclusive lines.flatten = lines) :
    idUnder source heading = lines.head?.bind fun raw =>
      (rawId raw).map fun id => (id, before.length + raw.length) := by
  have rest : source.drop heading.lineEnd = lines.flatten := by
    rw [whole, ends, List.drop_left]
  rw [idUnder, rest, ends]
  cases lines with
  | nil => rfl
  | cons raw lines =>
      have length : ((find ['\n'] (raw :: lines).flatten).map (· + 1)).getD
          (raw :: lines).flatten.length = raw.length := by
        rcases (@isLine_of_splitInclusive_eq_append _ _ [] _ cut).2 with
          ⟨body, absent, rfl⟩ | ⟨absent, -, rfl⟩
        · rw [List.flatten_cons, List.append_assoc, List.singleton_append, find,
            splitOnce_char_append absent]
          simp
        · rw [List.flatten_cons, List.flatten_nil, List.append_nil, find,
            splitOnce_char_eq_none_iff.mpr absent]
          rfl
      rw [length, List.flatten_cons, List.take_left, List.head?_cons, Option.bind_some, rawId]

theorem map_levelTwoFrom (whole : source = before ++ lines.flatten)
    (cut : splitInclusive lines.flatten = lines) :
    ((levelTwoFrom fence before.length lines).map fun heading =>
      (trim heading.text, (idUnder source heading).map Prod.fst)) =
        headingIdsFrom fence lines := by
  induction lines generalizing fence before with
  | nil => rfl
  | cons raw lines induction =>
      have tail := splitInclusive_tail cut
      have shifted : source = (before ++ raw) ++ lines.flatten := by
        rw [whole, List.flatten_cons, List.append_assoc]
      have later := @induction (nextFence fence raw) (before ++ raw) shifted tail
      rw [List.length_append] at later
      rw [levelTwoFrom_cons, List.map_append, later, headingIdsFrom]
      congr 1
      cases twoHeading fence raw with
      | none => rfl
      | some text =>
          have ends : (before ++ raw).length = before.length + raw.length :=
            List.length_append
          have under := @idUnder_eq lines source (before ++ raw)
            ⟨2, text, before.length, before.length + raw.length⟩ shifted ends.symm tail
          simp only [Option.map_some, Option.toList_some, List.map_cons, List.map_nil, under]
          cases lines.head? with
          | none => rfl
          | some next => cases spelled : rawId next <;> simp [spelled]

theorem headingIds_eq (source : Text) :
    headingIds source = headingIdsFrom none (bodyLines source) := by
  have walked := @map_levelTwoFrom none (bodyLines source) source
    (source.take (bodyOffset source)) (take_append_bodyLines source).symm
    (splitInclusive_bodyLines source)
  rw [take_bodyOffset] at walked
  rw [headingIds, levelTwo_eq, walked]

end Walks

section Stretches

variable {fence : FenceTracker} {lines : List Text} {source : Text}

theorem levelTwoFrom_append (fence : FenceTracker) (offset : Nat) (before after : List Text) :
    levelTwoFrom fence offset (before ++ after) = levelTwoFrom fence offset before ++
      levelTwoFrom (fenceAfter fence before) (offset + before.flatten.length) after := by
  induction before generalizing fence offset with
  | nil => simp [levelTwoFrom, headingSpansFrom]
  | cons raw before induction =>
      rw [List.cons_append, levelTwoFrom_cons, levelTwoFrom_cons, induction, fenceAfter_cons,
        List.flatten_cons, List.length_append, Nat.add_assoc, List.append_assoc]

theorem levelTwoFrom_bounds (nonempty : ∀ raw ∈ lines, raw ≠ []) (fence : FenceTracker)
    (offset : Nat) : ∀ heading ∈ levelTwoFrom fence offset lines,
      offset ≤ heading.lineStart ∧ heading.lineStart < offset + lines.flatten.length := by
  induction lines generalizing fence offset with
  | nil => simp [levelTwoFrom, headingSpansFrom]
  | cons raw lines induction =>
      have later := induction (fun other member => nonempty other (List.mem_cons_of_mem _ member))
        (nextFence fence raw) (offset + raw.length)
      have long := List.length_pos_of_ne_nil (nonempty raw List.mem_cons_self)
      intro heading member
      rw [levelTwoFrom_cons] at member
      rw [List.flatten_cons, List.length_append]
      rcases List.mem_append.mp member with member | member
      · obtain ⟨text, -, rfl⟩ := Option.map_eq_some_iff.mp (Option.mem_toList.mp member)
        dsimp only
        omega
      · have bounds := later heading member
        omega

/-- A text and its line start: what an edit further up leaves of a heading. -/
def mark (moved : Nat) (heading : HeadingSpan) : Text × Nat :=
  (heading.text, moved + heading.lineStart)

theorem levelTwoFrom_moved (fence : FenceTracker) (offset moved : Nat) (lines : List Text) :
    (levelTwoFrom fence (moved + offset) lines).map (mark 0) =
      (levelTwoFrom fence offset lines).map (mark moved) := by
  induction lines generalizing fence offset with
  | nil => rfl
  | cons raw lines induction =>
      rw [levelTwoFrom_cons, levelTwoFrom_cons, List.map_append, List.map_append, Nat.add_assoc,
        induction]
      congr 1
      cases twoHeading fence raw with
      | none => rfl
      | some text => simp [mark]

theorem ne_nil_of_cut {text raw : Text} (member : raw ∈ splitInclusive text) : raw ≠ [] := by
  obtain ⟨before, after, pieces⟩ := List.append_of_mem member
  rcases (isLine_of_splitInclusive_eq_append pieces).2 with isLine | ⟨-, nonempty, -⟩
  · exact isLine.ne_nil
  · exact nonempty

variable {before : Text}

theorem levelTwoFrom_text (terminated : Terminated before) (fence : FenceTracker) (offset : Nat)
    (after : Text) :
    levelTwoFrom fence offset (splitInclusive (before ++ after)) =
      levelTwoFrom fence offset (splitInclusive before) ++
        levelTwoFrom (fenceAfter fence (splitInclusive before)) (offset + before.length)
          (splitInclusive after) := by
  rw [splitInclusive_append terminated, levelTwoFrom_append, flatten_splitInclusive]

theorem terminated_drop {text : Text} (terminated : Terminated text) (count : Nat) :
    Terminated (text.drop count) := by
  rcases terminated_iff_getLast?.mp terminated with empty | last
  · rw [empty, List.drop_nil]
    exact terminated_nil
  · rw [terminated_iff_getLast?]
    by_cases empty : text.drop count = []
    · exact .inl empty
    · refine .inr ?_
      rw [← last, List.getLast?_drop, if_neg]
      rw [List.drop_eq_nil_iff] at empty
      omega

theorem closed_of_heading {offset : Nat} {text : Text} {heading : HeadingSpan}
    (member : heading ∈ levelTwoFrom fence offset (splitInclusive text))
    (first : heading.lineStart = offset) : fence = none := by
  cases lines : splitInclusive text with
  | nil =>
      rw [lines] at member
      cases member
  | cons raw rest =>
      have nonempty : ∀ line ∈ raw :: rest, line ≠ [] := by
        intro line inside
        rw [← lines] at inside
        exact ne_nil_of_cut inside
      rw [lines, levelTwoFrom_cons] at member
      rcases List.mem_append.mp member with member | member
      · obtain ⟨found, heads, -⟩ := Option.map_eq_some_iff.mp (Option.mem_toList.mp member)
        exact (twoHeading_closed heads).1
      · have later := levelTwoFrom_bounds (fun line inside =>
          nonempty line (List.mem_cons_of_mem _ inside)) _ _ heading member
        have long := List.length_pos_of_ne_nil (nonempty raw List.mem_cons_self)
        omega

/-- A heading stands on a line of the source: whole lines come before it, and it
ends a line or the source. -/
structure HeadingSpan.Stands (heading : HeadingSpan) (source : Text) : Prop where
  body : bodyOffset source ≤ heading.lineStart
  starts : Terminated (source.take heading.lineStart)
  order : heading.lineStart < heading.lineEnd
  inside : heading.lineEnd ≤ source.length
  ends : Terminated (source.take heading.lineEnd) ∨ heading.lineEnd = source.length

theorem headingSpansFrom_stands (terminated : Terminated before)
    (cut : splitInclusive lines.flatten = lines) :
    ∀ heading ∈ headingSpansFrom fence before.length lines,
      before.length ≤ heading.lineStart ∧
        Terminated ((before ++ lines.flatten).take heading.lineStart) ∧
        heading.lineStart < heading.lineEnd ∧
        heading.lineEnd ≤ (before ++ lines.flatten).length ∧
        (Terminated ((before ++ lines.flatten).take heading.lineEnd) ∨
          heading.lineEnd = (before ++ lines.flatten).length) := by
  induction lines generalizing fence before with
  | nil => simp [headingSpansFrom]
  | cons raw lines induction =>
      have shape := (@isLine_of_splitInclusive_eq_append _ _ [] _ cut).2
      have tail := splitInclusive_tail cut
      have nonempty : raw ≠ [] := by
        rcases shape with isLine | ⟨-, nonempty, -⟩
        · exact isLine.ne_nil
        · exact nonempty
      have long := List.length_pos_of_ne_nil nonempty
      have whole : before ++ (raw :: lines).flatten = before ++ raw ++ lines.flatten := by
        rw [List.flatten_cons, List.append_assoc]
      have first : Terminated (before ++ raw) ∨ lines = [] := by
        rcases shape with isLine | ⟨-, -, empty⟩
        · exact .inl (terminated.append isLine.terminated)
        · exact .inr empty
      have later : ∀ fence, ∀ heading ∈
          headingSpansFrom fence (before.length + raw.length) lines,
          before.length + raw.length ≤ heading.lineStart ∧
            Terminated ((before ++ raw ++ lines.flatten).take heading.lineStart) ∧
            heading.lineStart < heading.lineEnd ∧
            heading.lineEnd ≤ (before ++ raw ++ lines.flatten).length ∧
            (Terminated ((before ++ raw ++ lines.flatten).take heading.lineEnd) ∨
              heading.lineEnd = (before ++ raw ++ lines.flatten).length) := by
        intro fence heading member
        rcases first with ended | rfl
        · rw [← List.length_append] at member ⊢
          exact induction ended tail heading member
        · cases member
      rw [whole]
      intro heading member
      rw [headingSpansFrom] at member
      have onward : ∀ fence, heading ∈ headingSpansFrom fence (before.length + raw.length) lines →
          before.length ≤ heading.lineStart ∧ _ := fun fence member =>
        ⟨by have bound := (later fence heading member).1; omega, (later fence heading member).2⟩
      split at member
      · exact onward _ member
      · split at member
        next found read =>
          rcases List.mem_cons.mp member with rfl | member
          · refine ⟨Nat.le_refl _, ?_, by dsimp only; omega, by simp, ?_⟩
            · rw [List.append_assoc, List.take_left]
              exact terminated
            · dsimp only
              rw [← List.length_append, List.take_left]
              rcases first with ended | rfl
              · exact .inl ended
              · exact .inr (by simp)
          · exact onward _ member
        · exact onward _ member

theorem terminated_front (body : bodyLines source ≠ []) :
    Terminated (source.take (bodyOffset source)) := by
  rcases bodyOffset_cases source with ⟨-, start⟩ | ⟨parts, wellCut, rfl⟩
  · rw [start, List.take_zero]
    exact terminated_nil
  · rw [bodyLines, bodyOffset_source wellCut, FrontmatterParts.source, List.drop_left] at body
    rw [bodyOffset_source wellCut, FrontmatterParts.source, List.take_left]
    apply Terminated.append
    · exact wellCut.openLine_isLine.terminated.append wellCut.yaml_terminated
    · rcases wellCut.closeLine_ends with isLine | ⟨-, -, empty⟩
      · exact isLine.terminated
      · rw [empty] at body
        exact absurd rfl body

theorem headingSpans_stands (source : Text) :
    ∀ heading ∈ headingSpans source, heading.Stands source := by
  intro heading member
  have body : bodyLines source ≠ [] := by
    intro empty
    rw [headingSpans, ← bodyLines, empty] at member
    cases member
  have start := take_bodyOffset source
  rw [headingSpans, ← bodyLines, ← start] at member
  have stands := headingSpansFrom_stands (terminated_front body) (splitInclusive_bodyLines source)
    heading member
  rw [take_append_bodyLines, start] at stands
  obtain ⟨first, second, third, fourth, fifth⟩ := stands
  exact ⟨first, second, third, fourth, fifth⟩

end Stretches

end Crystalline.Reflection
