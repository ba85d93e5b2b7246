import Crystalline.Reflection.KeptIds

/-!
# Section edits by what the content says

The page with the content in place reads as the page before the edit, the headings
of the content, and the page behind it, when neither leaves a fence open and no id
line stands loose.  Then the ids are handed back right exactly by how often each
heading text is added and removed.
-/

namespace Crystalline.Reflection

open Text Keyed

section Lines

variable {fence : FenceTracker} {before after lines : List Text} {raw other : Text}

theorem nextFence_newline (fence : FenceTracker) : nextFence fence ['\n'] = fence := by
  cases fence <;> rfl

theorem twoHeading_newline (fence : FenceTracker) : twoHeading fence ['\n'] = none := by
  cases fence <;> rfl

theorem bareLine_snoc (absent : '\n' ∉ raw) : bareLine (raw ++ ['\n']) = bareLine raw := by
  rw [bareLine_newline, bareLine_of_not_mem absent]

theorem rawId_snoc (raw : Text) : rawId (raw ++ ['\n']) = rawId raw := by
  rw [rawId, rawId, trimEndMatches, trimEndMatches, List.rdropWhile_concat_pos _ _ _ rfl]

theorem headingIdsFrom_append (quiet : after.head?.bind rawId = none) :
    headingIdsFrom fence (before ++ after) =
      headingIdsFrom fence before ++ headingIdsFrom (fenceAfter fence before) after := by
  induction before generalizing fence with
  | nil => rfl
  | cons raw before induction =>
      have next : (before ++ after).head?.bind rawId = before.head?.bind rawId := by
        cases before with
        | nil => exact quiet
        | cons => rfl
      rw [List.cons_append, headingIdsFrom, headingIdsFrom, next, induction, List.append_assoc]
      rfl

/-- A line that reads the same may stand at the end. -/
theorem headingIdsFrom_congr_last (same : bareLine other = bareLine raw)
    (id : rawId other = rawId raw) :
    headingIdsFrom fence (before ++ [other]) = headingIdsFrom fence (before ++ [raw]) := by
  induction before generalizing fence with
  | nil =>
      rw [List.nil_append, List.nil_append, headingIdsFrom, headingIdsFrom,
        twoHeading_congr same]
      rfl
  | cons first before induction =>
      have next : (before ++ [other]).head?.bind rawId = (before ++ [raw]).head?.bind rawId := by
        cases before with
        | nil => exact id
        | cons => rfl
      rw [List.cons_append, List.cons_append, headingIdsFrom, headingIdsFrom, next, induction]

theorem headingIdsFrom_quiet (quiet : ∀ line ∈ lines, rawId line = none) :
    ∀ entry ∈ headingIdsFrom fence lines, entry.2 = none := by
  induction lines generalizing fence with
  | nil => simp [headingIdsFrom]
  | cons raw lines induction =>
      intro entry member
      rw [headingIdsFrom] at member
      rcases List.mem_append.mp member with here | later
      · obtain ⟨text, -, rfl⟩ := Option.map_eq_some_iff.mp (Option.mem_toList.mp here)
        cases lines with
        | nil => rfl
        | cons next lines => exact quiet next (by simp)
      · exact induction (fun line inside => quiet line (List.mem_cons_of_mem _ inside)) entry later

theorem length_headingIdsFrom (fence : FenceTracker) (offset : Nat) (lines : List Text) :
    (headingIdsFrom fence lines).length = (levelTwoFrom fence offset lines).length := by
  induction lines generalizing fence offset with
  | nil => rfl
  | cons raw lines induction =>
      rw [headingIdsFrom, levelTwoFrom_cons, List.length_append, List.length_append,
        induction _ (offset + raw.length)]
      cases twoHeading fence raw <;> rfl

/-- The walker stands outside fences before a heading and behind it. -/
theorem headingSpansFrom_cut {offset : Nat} {heading : HeadingSpan}
    (member : heading ∈ headingSpansFrom fence offset lines) :
    ∃ before raw after, lines = before ++ raw :: after ∧
      heading.lineStart = offset + before.flatten.length ∧
      heading.lineEnd = heading.lineStart + raw.length ∧
      fenceAfter fence before = none ∧ nextFence none raw = none := by
  induction lines generalizing fence offset with
  | nil => cases member
  | cons raw lines induction =>
      have later : ∀ next, next = nextFence fence raw →
          heading ∈ headingSpansFrom next (offset + raw.length) lines →
          ∃ before other after, raw :: lines = before ++ other :: after ∧
            heading.lineStart = offset + before.flatten.length ∧
            heading.lineEnd = heading.lineStart + other.length ∧
            fenceAfter fence before = none ∧ nextFence none other = none := by
        rintro _ rfl inside
        obtain ⟨before, other, after, rfl, start, ends, closed, plain⟩ := induction inside
        refine ⟨raw :: before, other, after, rfl, ?_, ends, closed, plain⟩
        rw [start, List.flatten_cons, List.length_append, Nat.add_assoc]
      rw [headingSpansFrom] at member
      split at member
      · exact later _ rfl member
      · rename_i outside
        split at member
        · rename_i found parsed
          rcases List.mem_cons.mp member with rfl | member
          · refine ⟨[], raw, lines, rfl, rfl, rfl, ?_⟩
            rw [fenceAfter_nil]
            cases fence with
            | some opened =>
                exfalso
                apply outside
                rw [FenceTracker.inFence]
                split
                · split <;> rfl
                · rfl
            | none =>
                refine ⟨rfl, ?_⟩
                rw [nextFence, bareLine, FenceTracker.inFence]
                cases marker : fenceMarker (withoutReturns (withoutNewline raw)) with
                | none => rfl
                | some opens => simp [FenceTracker.inFence, marker] at outside
          · exact later _ rfl member
        · exact later _ rfl member

end Lines

section Stretches

variable {fence : FenceTracker} {before after text : Text}

/-- The headings of a stretch of text, each with the id line under it. -/
def idsIn (fence : FenceTracker) (text : Text) : List (Text × Option Text) :=
  headingIdsFrom fence (splitInclusive text)

/-- The tracker after a stretch of text. -/
def fenceIn (fence : FenceTracker) (text : Text) : FenceTracker :=
  fenceAfter fence (splitInclusive text)

/-- The id that the first line of a text spells. -/
def firstId (text : Text) : Option Text := (splitInclusive text).head?.bind rawId

/-- Whether the first line of a text is a frontmatter delimiter. -/
def opensFrame (text : Text) : Bool := (splitInclusive text).head?.any isDelimiter

theorem idsIn_append (terminated : Terminated before) (quiet : firstId after = none) :
    idsIn fence (before ++ after) = idsIn fence before ++ idsIn (fenceIn fence before) after := by
  rw [idsIn, splitInclusive_append terminated, headingIdsFrom_append quiet]
  rfl

theorem fenceIn_append (terminated : Terminated before) :
    fenceIn fence (before ++ after) = fenceIn (fenceIn fence before) after := by
  rw [fenceIn, splitInclusive_append terminated, fenceAfter_append]
  rfl

/-- A text without its last line, and the same text ended by a line feed. -/
theorem cut_snoc (text : Text) : ∃ (pieces : List Text) (raw : Text), '\n' ∉ raw ∧
    splitInclusive (text ++ ['\n']) = pieces ++ [raw ++ ['\n']] ∧
    splitInclusive text = pieces ++ (if raw = [] then [] else [raw]) := by
  obtain ⟨pieces, raw, areLines, absent, rfl⟩ := exists_lines_append text
  refine ⟨pieces, raw, absent, ?_, splitInclusive_eq_of_lines areLines absent⟩
  have last := splitInclusive_line_append (isLine_snoc absent) []
  rw [List.append_nil] at last
  rw [List.append_assoc, splitInclusive_append (terminated_flatten areLines),
    splitInclusive_flatten_of_lines areLines, last]
  rfl

theorem idsIn_newline (fence : FenceTracker) (text : Text) :
    idsIn fence (text ++ ['\n']) = idsIn fence text := by
  obtain ⟨pieces, raw, absent, ended, cut⟩ := cut_snoc text
  rw [idsIn, idsIn, ended, cut]
  split
  · rename_i empty
    subst empty
    rw [List.nil_append, headingIdsFrom_append rfl, headingIdsFrom, twoHeading_newline]
    simp [headingIdsFrom]
  · exact headingIdsFrom_congr_last (bareLine_snoc absent) (rawId_snoc raw)

theorem fenceIn_newline (fence : FenceTracker) (text : Text) :
    fenceIn fence (text ++ ['\n']) = fenceIn fence text := by
  obtain ⟨pieces, raw, absent, ended, cut⟩ := cut_snoc text
  rw [fenceIn, fenceIn, ended, cut, fenceAfter_append, fenceAfter_append]
  split
  · rename_i empty
    subst empty
    exact nextFence_newline _
  · rw [fenceAfter_cons, fenceAfter_cons, nextFence, nextFence, bareLine_snoc absent]

theorem firstId_newline (text : Text) : firstId (text ++ ['\n']) = firstId text := by
  obtain ⟨pieces, raw, absent, ended, cut⟩ := cut_snoc text
  rw [firstId, firstId, ended, cut]
  cases pieces with
  | cons => rfl
  | nil =>
      split
      · rename_i empty
        subst empty
        rfl
      · exact rawId_snoc raw

theorem isDelimiter_snoc {raw : Text} (absent : '\n' ∉ raw) :
    isDelimiter (raw ++ ['\n']) = isDelimiter raw := by
  rw [isDelimiter, isDelimiter, withoutNewline_snoc, withoutNewline_of_not_mem absent]

theorem opensFrame_newline (text : Text) : opensFrame (text ++ ['\n']) = opensFrame text := by
  obtain ⟨pieces, raw, absent, ended, cut⟩ := cut_snoc text
  rw [opensFrame, opensFrame, ended, cut]
  cases pieces with
  | cons => rfl
  | nil =>
      split
      · rename_i empty
        subst empty
        rfl
      · exact isDelimiter_snoc absent

theorem opensFrame_append (terminated : Terminated before) :
    opensFrame (before ++ after) = if before = [] then opensFrame after else opensFrame before := by
  split
  · rename_i empty
    rw [empty, List.nil_append]
  · rename_i filled
    rw [opensFrame, splitInclusive_append terminated, opensFrame]
    cases pieces : splitInclusive before with
    | nil =>
        have flat := flatten_splitInclusive before
        rw [pieces] at flat
        exact absurd flat.symm filled
    | cons => rfl

theorem bodyOffset_of_unframed (unframed : opensFrame text = false) : bodyOffset text = 0 := by
  rw [bodyOffset, locate]
  cases pieces : splitInclusive text with
  | nil => rfl
  | cons first rest =>
      rw [opensFrame, pieces] at unframed
      have plain : isDelimiter first = false := unframed
      simp [plain]

variable {feeds : Text}

theorem snocs (feed : ∀ char ∈ feeds, char = '\n') {Value : Type} (read : Text → Value)
    (newline : ∀ text, read (text ++ ['\n']) = read text) (text : Text) :
    read (text ++ feeds) = read text := by
  induction feeds using List.reverseRecOn with
  | nil => rw [List.append_nil]
  | append_singleton feeds char ih =>
      obtain rfl := feed char (by simp)
      rw [← List.append_assoc, newline, ih fun char member => feed char (by simp [member])]

theorem snoc_of_feeds (feed : ∀ char ∈ feeds, char = '\n') (filled : feeds ≠ []) :
    ∃ rest, feeds = rest ++ ['\n'] := by
  have last := List.dropLast_append_getLast filled
  rw [feed _ (List.getLast_mem filled)] at last
  exact ⟨_, last.symm⟩

end Stretches

section Places

variable {source content : Text} {target : Target} {heading : HeadingSpan}

/-- The tracker at a place of a page. -/
def fenceAt (source : Text) (offset : Nat) : FenceTracker :=
  fenceIn none ((source.take offset).drop (bodyOffset source))

theorem fenceAt_heading (member : heading ∈ headingSpans source) :
    fenceAt source heading.lineStart = none ∧ fenceAt source heading.lineEnd = none := by
  obtain ⟨before, raw, after, pieces, start, ends, closed, plain⟩ := headingSpansFrom_cut member
  obtain ⟨areLines, shape⟩ := isLine_of_splitInclusive_eq_append pieces
  have body : source.drop (bodyOffset source) = before.flatten ++ (raw ++ after.flatten) := by
    rw [← flatten_splitInclusive (source.drop _), pieces, List.flatten_append, List.flatten_cons]
  constructor
  · have front : (source.take heading.lineStart).drop (bodyOffset source) = before.flatten := by
      rw [List.drop_take, body, start, Nat.add_sub_cancel_left, List.take_left]
    rw [fenceAt, front, fenceIn, splitInclusive_flatten_of_lines areLines, closed]
  · have front : (source.take heading.lineEnd).drop (bodyOffset source) =
        before.flatten ++ raw := by
      have length : heading.lineEnd - bodyOffset source = (before.flatten ++ raw).length := by
        rw [ends, start, List.length_append]
        omega
      rw [List.drop_take, body, length, ← List.append_assoc, List.take_left]
    have last : splitInclusive raw = [raw] := by
      rcases shape with isLine | ⟨absent, filled, -⟩
      · have cut := splitInclusive_line_append isLine []
        rwa [List.append_nil] at cut
      · exact splitInclusive_of_not_mem absent filled
    rw [fenceAt, front, fenceIn, splitInclusive_append (terminated_flatten areLines),
      splitInclusive_flatten_of_lines areLines, last, fenceAfter_append, closed]
    exact plain

theorem fenceAt_length (closed : fenceAfter none (bodyLines source) = none) :
    fenceAt source source.length = none := by
  rw [fenceAt, List.take_length]
  exact closed

theorem fenceAt_startOf (closed : fenceAfter none (bodyLines source) = none) (index : Nat) :
    fenceAt source (startOf source (headingSpans source) index) = none := by
  rw [startOf]
  cases found : (headingSpans source)[index]? with
  | none => exact fenceAt_length closed
  | some heading => exact (fenceAt_heading (List.mem_of_getElem? found)).1

/-- A splice between two places outside fences, the second at the start of a line
or the end of the page. -/
structure Splice.Clear (splice : Splice) (source : Text) : Prop where
  before : fenceAt source splice.start = none
  behind : fenceAt source splice.stop = none
  ends : Terminated (source.take splice.stop) ∨ splice.stop = source.length

theorem sectionSplice_clear (member : target ∈ (headingSpans source).zipIdx)
    (closed : fenceAfter none (bodyLines source) = none) (content : Text) (op : SectionOp) :
    (sectionSplice source (headingSpans source) target content op).Clear source := by
  have here := List.mem_of_getElem? (mem_headings member)
  have stands := headingSpans_stands source target.1 here
  obtain ⟨starts, ends⟩ := fenceAt_heading here
  have later : target.2 < sectionEndIndex (headingSpans source) target := by
    rw [sectionEndIndex]
    omega
  cases op with
  | replace includeSubsections =>
      obtain ⟨index, behind, stop⟩ : ∃ index, target.2 < index ∧
          (replaceSplice source (headingSpans source) target content includeSubsections).stop =
            startOf source (headingSpans source) index := by
        rw [replaceSplice]
        split
        · exact ⟨_, later, rfl⟩
        · split
          · exact ⟨_, Nat.lt_succ_self _, rfl⟩
          · exact ⟨_, later, rfl⟩
      refine ⟨ends, ?_, ?_⟩
      · rw [sectionSplice, stop]
        exact fenceAt_startOf closed index
      · rw [sectionSplice, stop]
        exact (startOf_bounds member behind).2.2
  | insertBefore => exact ⟨starts, starts, .inl stands.starts⟩
  | insertAfter =>
      rw [sectionSplice, insertAfterSplice]
      dsimp only
      split
      · exact ⟨fenceAt_startOf closed _, fenceAt_startOf closed _, (startOf_bounds member later).2.2⟩
      · exact ⟨ends, ends, stands.ends⟩

/-- The content of an edit, without a repeat of the target's heading and without
the newlines around it. -/
def contentBody (op : SectionOp) (target : HeadingSpan) (content : Text) : Text :=
  trimNewlines (match op with
    | .insertBefore => content
    | .replace _ | .insertAfter => (stripRepeatedHeading target content).1)

/-- The content among line feeds. -/
structure Splice.Carries (splice : Splice) (body : Text) : Prop where
  shape : ∃ lead tail : Text, splice.region = lead ++ (body ++ tail) ∧
    (∀ char ∈ lead, char = '\n') ∧ (∀ char ∈ tail, char = '\n') ∧ tail ≠ []
  head : ∀ rest, body ≠ '\n' :: rest

theorem trimNewlines_head (text rest : Text) : trimNewlines text ≠ '\n' :: rest := by
  intro same
  have front : trimNewlines text <+: trimStartMatches (· == '\n') text :=
    List.rdropWhile_prefix _ _
  rw [same] at front
  obtain ⟨tail, whole⟩ := front
  have kept := List.head?_dropWhile_not (· == '\n') text
  rw [trimStartMatches] at whole
  rw [← whole] at kept
  simp at kept

theorem replaceRegion_carries (body : Text) (last : Bool) :
    ∃ lead tail : Text, replaceRegion body last = lead ++ (body ++ tail) ∧
      (∀ char ∈ lead, char = '\n') ∧ (∀ char ∈ tail, char = '\n') ∧ tail ≠ [] := by
  rw [replaceRegion]
  split
  · rename_i empty
    exact ⟨[], ['\n'], by rw [empty]; rfl, by simp, by simp, by simp⟩
  · split
    · exact ⟨['\n'], ['\n'], rfl, by simp, by simp, by simp⟩
    · exact ⟨['\n'], ['\n', '\n'], rfl, by simp, by simp, by simp⟩

theorem sectionSplice_carries (source : Text) (headings : List HeadingSpan) (target : Target)
    (content : Text) (op : SectionOp) :
    (sectionSplice source headings target content op).Carries
      (contentBody op target.1 content) := by
  have feeds : ∀ condition : Prop, ∀ [Decidable condition],
      ∀ char ∈ if condition then ['\n'] else [], char = '\n' := by
    intro condition _ char member
    rcases lineFeed_or_nil condition with none | one
    · rw [none] at member
      cases member
    · rw [one] at member
      exact List.mem_singleton.mp member
  refine ⟨?_, fun rest => trimNewlines_head _ rest⟩
  cases op with
  | replace includeSubsections =>
      rw [sectionSplice, replaceSplice, contentBody]
      exact replaceRegion_carries _ _
  | insertBefore => exact ⟨[], ['\n', '\n'], rfl, by simp, by simp, by simp⟩
  | insertAfter =>
      rw [sectionSplice, insertAfterSplice, contentBody]
      dsimp only
      split
      · refine ⟨_, _, rfl, ?_, ?_, by simp⟩
        · intro char member
          split at member
          · cases member
          · split at member
            · exact List.mem_singleton.mp member
            · simpa using member
        · intro char member
          rcases List.mem_cons.mp member with rfl | member
          · rfl
          · exact feeds _ char member
      · refine ⟨['\n'], _, rfl, by simp, ?_, by simp⟩
        intro char member
        rcases List.mem_cons.mp member with rfl | member
        · rfl
        · exact feeds _ char member

end Places

section Walk

variable {source body : Text} {splice : Splice} {fence : FenceTracker}

/-- The body before the place of an edit. -/
def Splice.front (splice : Splice) (source : Text) : Text :=
  (source.take splice.start).drop (bodyOffset source)

/-- The region after a front, and what is behind it, read on their own. -/
theorem idsIn_region {front back : Text} (carries : splice.Carries body)
    (opens : Terminated front ∨ ∃ rest, splice.region = '\n' :: rest)
    (closed : fenceIn none front = none) (bodyClosed : fenceIn none body = none)
    (quiet : firstId body = none) (behind : firstId back = none) :
    Terminated (front ++ splice.region) ∧ fenceIn none (front ++ splice.region) = none ∧
      idsIn none (front ++ splice.region ++ back) =
        idsIn none front ++ (idsIn none body ++ idsIn none back) := by
  obtain ⟨lead, tail, shape, leadFeeds, tailFeeds, filled⟩ := carries.shape
  obtain ⟨tailRest, tailEnd⟩ := snoc_of_feeds tailFeeds filled
  have terminated : Terminated (front ++ splice.region) := by
    have ended : front ++ splice.region = front ++ lead ++ body ++ tailRest ++ ['\n'] := by
      rw [shape, tailEnd]
      simp
    rw [ended]
    exact terminated_snoc _
  by_cases empty : body = []
  · have feeds : ∀ char ∈ splice.region, char = '\n' := by
      intro char member
      rw [shape, empty, List.nil_append] at member
      exact (List.mem_append.mp member).elim (leadFeeds char) (tailFeeds char)
    have open_ := snocs feeds (fenceIn none) (fenceIn_newline none) front
    have same := snocs feeds (idsIn none) (idsIn_newline none) front
    refine ⟨terminated, open_.trans closed, ?_⟩
    rw [idsIn_append terminated behind, same, open_, closed, empty]
    rfl
  · have started : Terminated (front ++ lead) := by
      cases leads : lead with
      | nil =>
          rw [List.append_nil]
          refine opens.resolve_right ?_
          rintro ⟨rest, begins⟩
          rw [shape, leads, List.nil_append] at begins
          cases bodied : body with
          | nil => exact empty bodied
          | cons char bodyRest =>
              rw [bodied, List.cons_append] at begins
              exact carries.head bodyRest (by rw [bodied, (List.cons.inj begins).1])
      | cons char leadRest =>
          rw [← leads]
          obtain ⟨rest, ends⟩ := snoc_of_feeds leadFeeds (by simp [leads])
          rw [ends, ← List.append_assoc]
          exact terminated_snoc _
    have bodied : Terminated (body ++ tail) := by
      rw [tailEnd, ← List.append_assoc]
      exact terminated_snoc _
    have first : firstId (body ++ tail) = none :=
      (snocs tailFeeds firstId firstId_newline body).trans quiet
    have leadIds := snocs leadFeeds (idsIn none) (idsIn_newline none) front
    have leadFence := snocs leadFeeds (fenceIn none) (fenceIn_newline none) front
    have tailIds := snocs tailFeeds (idsIn none) (idsIn_newline none) body
    have tailFence := snocs tailFeeds (fenceIn none) (fenceIn_newline none) body
    have whole : front ++ splice.region = front ++ lead ++ (body ++ tail) := by
      rw [shape, List.append_assoc]
    have fence : fenceIn none (front ++ splice.region) = none := by
      rw [whole, fenceIn_append started, leadFence, closed, tailFence, bodyClosed]
    refine ⟨terminated, fence, ?_⟩
    rw [idsIn_append terminated behind, fence, whole, idsIn_append started first, leadIds,
      leadFence, closed, tailIds, List.append_assoc]

theorem opensFrame_feeds {feeds : Text} (feed : ∀ char ∈ feeds, char = '\n') :
    opensFrame feeds = false := by
  have same := snocs feed opensFrame opensFrame_newline []
  rwa [List.nil_append] at same

/-- Neither the page nor the content begins with a delimiter: neither does the page
with the content. -/
theorem opensFrame_apply (fits : splice.Fits source) (carries : splice.Carries body)
    (page : opensFrame source = false) (content : opensFrame body = false) :
    opensFrame (splice.apply source) = false := by
  rw [Splice.apply, List.append_assoc]
  by_cases atStart : source.take splice.start = []
  · obtain ⟨lead, tail, shape, leadFeeds, tailFeeds, filled⟩ := carries.shape
    obtain ⟨front, ended⟩ := fits.closes
    have nonempty : splice.region ≠ [] := by simp [ended]
    have terminated : Terminated splice.region := by
      rw [ended]
      exact terminated_snoc _
    rw [atStart, List.nil_append, opensFrame_append terminated, if_neg nonempty, shape]
    by_cases leads : lead = []
    · rw [leads, List.nil_append]
      exact (snocs tailFeeds opensFrame opensFrame_newline body).trans content
    · obtain ⟨rest, ends⟩ := snoc_of_feeds leadFeeds leads
      have leadEnded : Terminated lead := by
        rw [ends]
        exact terminated_snoc _
      rw [opensFrame_append leadEnded, if_neg leads]
      exact opensFrame_feeds leadFeeds
  · rcases fits.opens with terminated | ⟨last, rest, begins⟩
    · rw [opensFrame_append terminated, if_neg atStart]
      have whole := @opensFrame_append _ (source.drop splice.start) terminated
      rw [List.take_append_drop, if_neg atStart] at whole
      rw [← whole]
      exact page
    · rw [last, List.take_length, begins, List.cons_append, ← List.singleton_append,
        ← List.append_assoc, opensFrame_append (terminated_snoc _), if_neg (by simp),
        opensFrame_newline]
      exact page

theorem bodyOffset_apply_eq (fits : splice.Fits source) (carries : splice.Carries body)
    (framed : (locate source).isSome = true ∨
      opensFrame source = false ∧ opensFrame body = false) :
    bodyOffset (splice.apply source) = bodyOffset source := by
  rcases framed with located | ⟨page, content⟩
  · rcases bodyOffset_cases source with ⟨absent, -⟩ | ⟨parts, wellCut, rfl⟩
    · rw [absent] at located
      cases located
    · exact bodyOffset_apply_framed wellCut fits
  · rw [bodyOffset_of_unframed page,
      bodyOffset_of_unframed (opensFrame_apply fits carries page content)]

/-- What the walks over the page before and behind the content rely on. -/
structure TakesIn (source : Text) (splice : Splice) (body : Text) : Prop where
  fits : splice.Fits source
  clear : splice.Clear source
  carries : splice.Carries body
  offset : bodyOffset (splice.apply source) = bodyOffset source
  closed : fenceIn none body = none
  bound : ∀ line ∈ bodyLines source, rawId line = none
  quiet : firstId body = none

section

variable (takes : TakesIn source splice body)
include takes

theorem TakesIn.body_eq : source.drop (bodyOffset source) =
    splice.front source ++ source.drop splice.start := by
  have start := takes.fits.body
  have front := length_take_start takes.fits
  rw [Splice.front, ← List.drop_append_of_le_length (by omega), List.take_append_drop]

theorem TakesIn.opens : Terminated (splice.front source) ∨
    source.drop splice.start = [] ∧ ∃ rest, splice.region = '\n' :: rest := by
  rcases takes.fits.opens with terminated | ⟨last, begins⟩
  · exact .inl (terminated_drop terminated _)
  · exact .inr ⟨by rw [last, List.drop_length], begins⟩

theorem TakesIn.apply_eq : (splice.apply source).drop (bodyOffset (splice.apply source)) =
    splice.front source ++ splice.region ++ source.drop splice.stop := by
  have start := takes.fits.body
  have front := length_take_start takes.fits
  rw [takes.offset, Splice.apply, List.append_assoc, List.drop_append_of_le_length (by omega),
    Splice.front, List.append_assoc]

/-- The body cut behind the place of an edit. -/
theorem TakesIn.behind_eq : ∃ before, Terminated before ∧ fenceIn none before = none ∧
      source.drop (bodyOffset source) = before ++ source.drop splice.stop ∧
      bodyOffset source + before.length = splice.stop ∨
    source.drop splice.stop = [] ∧ splice.stop = source.length := by
  have start := takes.fits.body
  have order := takes.fits.order
  have inside := takes.fits.inside
  rcases takes.clear.ends with terminated | last
  · refine ⟨(source.take splice.stop).drop (bodyOffset source), .inl ⟨terminated_drop terminated _,
      takes.clear.behind, ?_, ?_⟩⟩
    · rw [← List.drop_append_of_le_length (by rw [List.length_take]; omega), List.take_append_drop]
    · rw [List.length_drop, List.length_take]
      omega
  · exact ⟨[], .inr ⟨by rw [last, List.drop_length], last⟩⟩

theorem TakesIn.firstId_behind : firstId (source.drop splice.stop) = none := by
  obtain ⟨before, ⟨terminated, -, whole, -⟩ | ⟨empty, -⟩⟩ := takes.behind_eq
  · rw [firstId]
    cases pieces : splitInclusive (source.drop splice.stop) with
    | nil => rfl
    | cons line rest =>
        apply takes.bound
        rw [bodyLines, whole, splitInclusive_append terminated, pieces]
        simp
  · rw [empty]
    rfl

/-- The headings of the page with the content, each with the id line under it. -/
theorem TakesIn.headingIds_apply :
    Terminated (splice.front source ++ splice.region) ∧
      fenceIn none (splice.front source ++ splice.region) = none ∧
      headingIds (splice.apply source) = idsIn none (splice.front source) ++
        (idsIn none body ++ idsIn none (source.drop splice.stop)) := by
  obtain ⟨terminated, fence, walked⟩ := idsIn_region takes.carries
    (takes.opens.imp_right And.right) takes.clear.before takes.closed takes.quiet
    takes.firstId_behind
  refine ⟨terminated, fence, ?_⟩
  rw [headingIds_eq, bodyLines, takes.apply_eq]
  exact walked

/-- The headings before the place, on the page. -/
theorem TakesIn.levelTwo_before : ((levelTwo source).filter fun heading =>
      heading.lineStart < splice.start).map (mark 0) =
    (levelTwoFrom none (bodyOffset source) (splitInclusive (splice.front source))).map
      (mark 0) := by
  have start := takes.fits.body
  have front := length_take_start takes.fits
  have length : bodyOffset source + (splice.front source).length = splice.start := by
    rw [Splice.front, List.length_drop, front]
    omega
  obtain ⟨first, rest, whole, marks, early, late⟩ := levelTwoFrom_front
    (takes.opens.imp_right fun opens => .inl opens.1) none (bodyOffset source)
  rw [← takes.body_eq] at whole
  rw [length] at early late
  rw [levelTwo_eq, bodyLines, whole, List.filter_append, List.filter_eq_self.mpr,
    List.filter_eq_nil_iff.mpr, List.append_nil, marks]
  · intro heading member
    have bound := late heading member
    simpa using bound
  · intro heading member
    have bound := early heading member
    simpa using bound

/-- The headings behind the place, on the page. -/
theorem TakesIn.levelTwo_behind : ((levelTwo source).filter fun heading =>
      splice.stop ≤ heading.lineStart) =
    levelTwoFrom none splice.stop (splitInclusive (source.drop splice.stop)) := by
  obtain ⟨before, ⟨terminated, fence, whole, length⟩ | ⟨empty, last⟩⟩ := takes.behind_eq
  · have walked := levelTwoFrom_text terminated none (bodyOffset source)
      (source.drop splice.stop)
    rw [← whole, length, show fenceAfter none (splitInclusive before) = none from fence] at walked
    rw [levelTwo_eq, bodyLines, walked, List.filter_append, List.filter_eq_nil_iff.mpr,
      List.filter_eq_self.mpr, List.nil_append]
    · intro heading member
      have bound := (levelTwoFrom_bounds (fun _ member => ne_nil_of_cut member) none splice.stop
        heading member).1
      simpa using bound
    · intro heading member
      have bound := (levelTwoFrom_bounds (fun _ member => ne_nil_of_cut member) none
        (bodyOffset source) heading member).2
      rw [flatten_splitInclusive, length] at bound
      simpa using bound
  · rw [empty, List.filter_eq_nil_iff.mpr]
    · rfl
    · intro heading member
      have bound := (levelTwo_bounds source heading member).2
      simp
      omega

/-- Every kept heading is read on the page with the content. -/
theorem TakesIn.read : ∀ heading ∈ levelTwo source, splice.keeps heading = true →
    ∃ found ∈ levelTwo (splice.apply source),
      found.lineStart = splice.shift heading.lineStart := by
  have start := takes.fits.body
  have front := length_take_start takes.fits
  have length : bodyOffset source + (splice.front source).length = splice.start := by
    rw [Splice.front, List.length_drop, front]
    omega
  obtain ⟨terminated, fence, -⟩ := takes.headingIds_apply
  intro heading member keeps
  rw [Splice.keeps, Bool.or_eq_true] at keeps
  rcases keeps with early | late
  · have early : heading.lineStart < splice.start := by simpa using early
    have marked : mark 0 heading ∈ ((levelTwo source).filter fun heading =>
        heading.lineStart < splice.start).map (mark 0) :=
      List.mem_map_of_mem (List.mem_filter.mpr ⟨member, decide_eq_true early⟩)
    obtain ⟨first, rest, whole, marks, -, -⟩ := @levelTwoFrom_front (splice.front source)
      (splice.region ++ source.drop splice.stop)
      (takes.opens.imp_right fun opens => .inr (by
        obtain ⟨-, rest, begins⟩ := opens
        exact ⟨rest ++ source.drop splice.stop, by rw [begins]; rfl⟩)) none (bodyOffset source)
    rw [takes.levelTwo_before, ← marks] at marked
    obtain ⟨found, inside, same⟩ := List.mem_map.mp marked
    refine ⟨found, ?_, ?_⟩
    · rw [levelTwo_eq, bodyLines, takes.apply_eq, takes.offset, List.append_assoc, whole]
      exact List.mem_append_left _ inside
    · rw [shift_before early]
      simpa [mark] using congrArg Prod.snd same
  · have late : splice.stop ≤ heading.lineStart := by simpa using late
    have shifted := shift_behind takes.fits late
    have inside : heading ∈ (levelTwo source).filter fun heading =>
        splice.stop ≤ heading.lineStart := List.mem_filter.mpr ⟨member, decide_eq_true late⟩
    rw [takes.levelTwo_behind] at inside
    have marked := List.mem_map_of_mem (f := mark 0) inside
    have moved := levelTwoFrom_moved none 0 splice.stop
      (splitInclusive (source.drop splice.stop))
    have placed := levelTwoFrom_moved none 0 (splice.start + splice.region.length)
      (splitInclusive (source.drop splice.stop))
    rw [Nat.add_zero] at moved placed
    rw [moved] at marked
    obtain ⟨other, there, same⟩ := List.mem_map.mp marked
    have again := List.mem_map_of_mem (f := mark (splice.start + splice.region.length)) there
    rw [← placed] at again
    obtain ⟨found, here, place⟩ := List.mem_map.mp again
    have walked := levelTwoFrom_text terminated none (bodyOffset source)
      (source.drop splice.stop)
    rw [show fenceAfter none (splitInclusive (splice.front source ++ splice.region)) = none from
      fence, List.length_append, ← Nat.add_assoc, length] at walked
    refine ⟨found, ?_, ?_⟩
    · rw [levelTwo_eq, bodyLines, takes.apply_eq, takes.offset, walked]
      exact List.mem_append_right _ here
    · have first : splice.stop + other.lineStart = heading.lineStart := by
        simpa [mark] using congrArg Prod.snd same
      have second : found.lineStart =
          splice.start + splice.region.length + other.lineStart := by
        simpa [mark] using congrArg Prod.snd place
      omega

theorem TakesIn.length_before : (idsIn none (splice.front source)).length =
    ((levelTwo source).filter fun heading => heading.lineStart < splice.start).length := by
  have marks := congrArg List.length takes.levelTwo_before
  rw [List.length_map, List.length_map] at marks
  rw [marks, idsIn, length_headingIdsFrom]

theorem TakesIn.length_behind : (idsIn none (source.drop splice.stop)).length =
    ((levelTwo source).filter fun heading => splice.stop ≤ heading.lineStart).length := by
  rw [takes.levelTwo_behind, idsIn, length_headingIdsFrom none splice.stop]

/-- No heading of the page stands over an id line. -/
theorem TakesIn.quiet_before : ∀ entry ∈ idsIn none (splice.front source), entry.2 = none := by
  apply headingIdsFrom_quiet
  rcases takes.opens with terminated | ⟨last, -⟩
  · intro line member
    apply takes.bound
    rw [bodyLines, takes.body_eq, splitInclusive_append terminated]
    exact List.mem_append_left _ member
  · have whole := takes.body_eq
    rw [last, List.append_nil] at whole
    rw [← whole]
    exact takes.bound

theorem TakesIn.quiet_behind :
    ∀ entry ∈ idsIn none (source.drop splice.stop), entry.2 = none := by
  apply headingIdsFrom_quiet
  obtain ⟨before, ⟨terminated, -, whole, -⟩ | ⟨empty, -⟩⟩ := takes.behind_eq
  · intro line member
    apply takes.bound
    rw [bodyLines, whole, splitInclusive_append terminated]
    exact List.mem_append_right _ member
  · intro line member
    rw [empty] at member
    cases member

end

end Walk

section Spelled

variable {fence : FenceTracker} {text before after : Text} {lines : List Text} {id : Text}

theorem spelledIds_append (terminated : Terminated before) :
    spelledIds (before ++ after) = spelledIds before ++ spelledIds after := by
  rw [spelledIds, splitInclusive_append terminated, List.filterMap_append]
  rfl

theorem spelledIds_newline (text : Text) : spelledIds (text ++ ['\n']) = spelledIds text := by
  obtain ⟨pieces, raw, absent, ended, cut⟩ := cut_snoc text
  rw [spelledIds, spelledIds, ended, cut, List.filterMap_append, List.filterMap_append]
  congr 1
  split
  · rename_i empty
    subst empty
    rfl
  · rw [List.filterMap_cons, List.filterMap_cons, rawId_snoc]

theorem spelledIds_skipBlankLines (text : Text) :
    spelledIds (skipBlankLines text) ⊆ spelledIds text := by
  rw [skipBlankLines]
  generalize blank : (fun line : Text => decide (trim line = [])) = isBlankLine
  have whole := @List.takeWhile_append_dropWhile _ isBlankLine (splitInclusive text)
  cases rest : (splitInclusive text).dropWhile isBlankLine with
  | nil => simp [spelledIds, splitInclusive]
  | cons line lines =>
      rw [rest] at whole
      have areLines := (isLine_of_splitInclusive_eq_append whole.symm).1
      have flat := congrArg List.flatten whole
      rw [List.flatten_append, flatten_splitInclusive] at flat
      intro id member
      rw [← flat, spelledIds_append (terminated_flatten areLines)]
      exact List.mem_append_right _ member

theorem spelledIds_trimNewlines (text : Text) :
    spelledIds (trimNewlines text) = spelledIds text := by
  have back : ∀ text, spelledIds (trimEndMatches (· == '\n') text) = spelledIds text := by
    intro text
    induction text using List.reverseRecOn with
    | nil => rfl
    | append_singleton text char ih =>
        by_cases newline : char = '\n'
        · subst newline
          rw [trimEndMatches, List.rdropWhile_concat_pos _ _ _ rfl, spelledIds_newline]
          exact ih
        · rw [trimEndMatches, List.rdropWhile_concat_neg _ _ _ (by simp [newline])]
  rw [trimNewlines, back]
  induction text with
  | nil => rfl
  | cons char text ih =>
      by_cases newline : char = '\n'
      · subst newline
        have first := @spelledIds_append ['\n'] text (terminated_snoc [])
        rw [trimStartMatches, List.dropWhile_cons_of_pos rfl, ← List.singleton_append, first]
        exact ih
      · rw [trimStartMatches, List.dropWhile_cons_of_neg (by simp [newline])]

theorem spelledIds_stripRepeatedHeading (target : HeadingSpan) (content : Text) :
    ∀ id ∈ spelledIds (stripRepeatedHeading target content).1, id ∈ spelledIds content := by
  intro id member
  rw [stripRepeatedHeading] at member
  split at member
  · exact member
  · split at member
    · exact member
    · apply spelledIds_skipBlankLines
      have later := spelledIds_skipBlankLines _ member
      cases found : splitOnce ['\n'] (skipBlankLines content) with
      | none =>
          rw [found] at later
          cases later
      | some parts =>
          obtain ⟨first, rest⟩ := parts
          rw [found] at later
          have whole := (splitOnce_char_eq_some_iff.mp found).1
          rw [← List.singleton_append, ← List.append_assoc] at whole
          rw [whole, spelledIds_append (terminated_snoc first)]
          exact List.mem_append_right _ later

theorem spelledIds_contentBody (op : SectionOp) (target : HeadingSpan) (content : Text) :
    ∀ id ∈ spelledIds (contentBody op target content), id ∈ spelledIds content := by
  intro id member
  unfold contentBody at member
  rw [spelledIds_trimNewlines] at member
  cases op with
  | insertBefore => exact member
  | replace _ => exact spelledIds_stripRepeatedHeading target content id member
  | insertAfter => exact spelledIds_stripRepeatedHeading target content id member

theorem mem_spelledIds_of_headingIdsFrom
    (member : id ∈ (headingIdsFrom fence lines).filterMap Prod.snd) :
    id ∈ lines.filterMap rawId := by
  induction lines generalizing fence with
  | nil => cases member
  | cons raw lines induction =>
      rw [headingIdsFrom, List.filterMap_append] at member
      rcases List.mem_append.mp member with here | later
      · obtain ⟨entry, inside, same⟩ := List.mem_filterMap.mp here
        obtain ⟨text, -, rfl⟩ := Option.map_eq_some_iff.mp (Option.mem_toList.mp inside)
        cases lines with
        | nil => cases same
        | cons next lines => exact List.mem_filterMap.mpr ⟨next, by simp, same⟩
      · obtain ⟨line, inside, same⟩ := List.mem_filterMap.mp (induction later)
        exact List.mem_filterMap.mpr ⟨line, List.mem_cons_of_mem _ inside, same⟩

end Spelled

/-- The ids under the headings of the content. -/
def bodyIds (body : Text) : List Text := (idsIn none body).filterMap Prod.snd

/-- A section of the page whose id is to be handed back: it has a text, and the
content does not spell its id. -/
def spareOf (body : Text) (entry : Text × Option Text) : Bool :=
  decide (entry.1 ≠ []) && entry.2.all fun id => id ∉ bodyIds body

/-- When the ids come back to their sections, by the sections of the page and the
headings of the content. -/
structure HandsOut (source : Text) (splice : Splice) (body : Text) : Prop where
  /-- The content spells no id twice. -/
  spelled : (bodyIds body).Nodup
  /-- A kept section with an id has a text, and the content does not spell its id. -/
  fresh : ∀ heading id, (heading, some id) ∈ carried (withoutIdLines source) source →
    splice.keeps heading = true → trim heading.text ≠ [] ∧ id ∉ bodyIds body
  /-- The content brings as many headings of a text without an id as it takes away,
  or no section of that text behind it has an id to lose or to get. -/
  balanced : ∀ text, Balanced (spareOf body) (removedEntries source splice) (idsIn none body)
    (laterEntries source splice) text

section Exact

variable {source body content : Text} {splice : Splice}

/-- The page with the content, read section by section. -/
theorem TakesIn.layout (takes : TakesIn (withoutIdLines source) splice body) :
    ∃ front added back, levelTwo (placedPage source splice) = front ++ (added ++ back) ∧
      front.map (mark 0) = (keptBefore source splice).map (fun pair => splice.moved pair.1) ∧
      back.map (mark 0) = (keptBehind source splice).map (fun pair => splice.moved pair.1) ∧
      addedEntries source splice = idsIn none body ∧
      (∀ heading ∈ front, (idUnder (placedPage source splice) heading).map Prod.fst = none) ∧
      (∀ heading ∈ back, (idUnder (placedPage source splice) heading).map Prod.fst = none) ∧
      presentIds (placedPage source splice) = bodyIds body := by
  obtain ⟨front, added, back, whole, frontMarks, backMarks, entries, -, -⟩ :=
    exists_layout takes.fits takes.read
  obtain ⟨-, -, walked⟩ := takes.headingIds_apply
  have kept : ∀ keep : HeadingSpan → Bool,
      ((carried (withoutIdLines source) source).filter fun pair => keep pair.1).length =
        ((levelTwo (withoutIdLines source)).filter keep).length := by
    intro keep
    rw [← (sameHeadings_withoutIdLines source).map_fst, List.filter_map, List.length_map]
    rfl
  have frontLength : (front.map (writtenEntry (placedPage source splice))).length =
      (idsIn none (splice.front (withoutIdLines source))).length := by
    have lengths := congrArg List.length frontMarks
    rw [List.length_map, List.length_map, keptBefore,
      kept fun heading => heading.lineStart < splice.start] at lengths
    rw [List.length_map, lengths, takes.length_before]
  have backLength : (back.map (writtenEntry (placedPage source splice))).length =
      (idsIn none ((withoutIdLines source).drop splice.stop)).length := by
    have lengths := congrArg List.length backMarks
    rw [List.length_map, List.length_map, keptBehind,
      kept fun heading => splice.stop ≤ heading.lineStart] at lengths
    rw [List.length_map, lengths, takes.length_behind]
  have same : headingIds (placedPage source splice) =
      front.map (writtenEntry (placedPage source splice)) ++
        (added.map (writtenEntry (placedPage source splice)) ++
          back.map (writtenEntry (placedPage source splice))) := by
    rw [headingIds_map, whole, List.map_append, List.map_append]
  obtain ⟨frontSame, rest⟩ := List.append_inj (same.symm.trans walked) frontLength
  obtain ⟨addedSame, backSame⟩ := List.append_inj' rest backLength
  refine ⟨front, added, back, whole, frontMarks, backMarks, entries.trans addedSame, ?_, ?_, ?_⟩
  · intro heading member
    apply takes.quiet_before (writtenEntry (placedPage source splice) heading)
    rw [← frontSame]
    exact List.mem_map_of_mem member
  · intro heading member
    apply takes.quiet_behind (writtenEntry (placedPage source splice) heading)
    rw [← backSame]
    exact List.mem_map_of_mem member
  · have quiet : ∀ entries : List (Text × Option Text), (∀ entry ∈ entries, entry.2 = none) →
        entries.filterMap Prod.snd = [] := fun entries none =>
      List.filterMap_eq_nil_iff.mpr none
    rw [presentIds_eq, show headingIds (placedPage source splice) = _ from walked,
      List.filterMap_append, List.filterMap_append, quiet _ takes.quiet_before,
      quiet _ takes.quiet_behind, List.nil_append, List.append_nil]
    rfl

theorem TakesIn.handsBack_iff (takes : TakesIn (withoutIdLines source) splice body)
    (brought : ∀ id ∈ bodyIds body, id ∈ spelledIds content) :
    HandsBack source splice content ↔ HandsOut source splice body := by
  obtain ⟨front, added, back, whole, frontMarks, backMarks, entries, frontNone, backNone, ids⟩ :=
    takes.layout
  have offers : offered (placedPage source splice) = spareOf body := by
    funext entry
    rw [offered, ids, spareOf]
  -- A kept heading stands over no id line.
  have bare : ∀ heading id, (heading, id) ∈ carried (withoutIdLines source) source →
      splice.keeps heading = true → ∀ found ∈ levelTwo (placedPage source splice),
        found.lineStart = splice.shift heading.lineStart →
          (idUnder (placedPage source splice) found).map Prod.fst = none := by
    intro heading id carries keeps found member place
    have there : ∀ {headings : List HeadingSpan},
        splice.moved heading ∈ headings.map (mark 0) →
        (∀ other ∈ headings, other ∈ levelTwo (placedPage source splice)) → found ∈ headings := by
      intro headings marked within
      obtain ⟨other, inside, same⟩ := List.mem_map.mp marked
      have start : other.lineStart = splice.shift heading.lineStart := by
        simpa [mark, Splice.moved] using congrArg Prod.snd same
      obtain rfl := levelTwo_unique (within other inside) member (start.trans place.symm)
      exact inside
    rw [Splice.keeps, Bool.or_eq_true] at keeps
    rcases keeps with early | late
    · apply frontNone
      apply there
      · rw [frontMarks]
        exact List.mem_map.mpr ⟨_, List.mem_filter.mpr ⟨carries, early⟩, rfl⟩
      · intro other inside
        rw [whole]
        exact List.mem_append_left _ inside
    · apply backNone
      apply there
      · rw [backMarks]
        exact List.mem_map.mpr ⟨_, List.mem_filter.mpr ⟨carries, late⟩, rfl⟩
      · intro other inside
        rw [whole]
        exact List.mem_append_right _ (List.mem_append_right _ inside)
  constructor
  · intro right
    refine ⟨by rw [← ids]; exact right.written, ?_, ?_⟩
    · intro heading id carries keeps
      have read := takes.read heading
        (by rw [← (sameHeadings_withoutIdLines source).map_fst]; exact
          List.mem_map_of_mem (f := Prod.fst) carries) keeps
      obtain ⟨found, member, place⟩ := read
      have own := right.own heading (some id) carries keeps found member place
      rw [bare heading (some id) carries keeps found member place, offers] at own
      have spare : spareOf body (trim heading.text, some id) = true := by
        by_contra absent
        rw [ownTaker, entryOf, if_neg absent] at own
        cases own
      simpa [spareOf] using spare
    · intro text
      rw [← entries, ← offers]
      exact right.balanced text
  · intro right
    refine ⟨takes.read, by rw [ids]; exact right.spelled, ?_, ?_, ?_⟩
    · intro heading id carries keeps found member place
      rw [bare heading id carries keeps found member place, offers]
      cases id with
      | none => rw [ownTaker]; split <;> rfl
      | some id =>
          obtain ⟨named, absent⟩ := right.fresh heading id carries keeps
          have spare : spareOf body (entryOf (heading, some id)) = true := by
            simp [spareOf, entryOf, named, absent]
          rw [ownTaker, if_pos spare]
    · intro found member _ id under
      refine .inl (brought id ?_)
      rw [← ids]
      exact List.mem_filterMap.mpr ⟨found, member, under⟩
    · intro text
      rw [offers, entries]
      exact right.balanced text

end Exact

/-- Content that the page takes in: the page has frontmatter, or neither of the two
begins like it; both close their fences; every id line of the page stands under a
`##` heading of its own, and the content does not begin with one. -/
structure TakesContent (source : Text) (op : SectionOp) (target : HeadingSpan)
    (content : Text) : Prop where
  framed : (locate (withoutIdLines source)).isSome = true ∨
    opensFrame (withoutIdLines source) = false ∧
      opensFrame (contentBody op target content) = false
  closed : fenceAfter none (bodyLines (withoutIdLines source)) = none ∧
    fenceIn none (contentBody op target content) = none
  bound : ∀ line ∈ bodyLines (withoutIdLines source), rawId line = none
  quiet : firstId (contentBody op target content) = none

section Towns

/-- Two parts of a page, each with a section of one text. -/
def twoParts : Text :=
  "# T\n\n## A\n<!-- r:aaaa -->\n\ntext\n\n# U\n\n## A\n<!-- r:bbbb -->\n".toList

/-- What replaces the first part: the section again, and one with an id of its own. -/
def newPart : Text := "## A\n\nnew\n\n## C\n<!-- r:cccc -->".toList

def firstPart : Target := (⟨1, "T".toList, 0, 4⟩, 0)

def twoPartsEdit : SectionEdit where
  text := ("# T\n\n## A\n<!-- r:aaaa -->\n\nnew\n\n## C\n<!-- r:cccc -->\n\n" ++
    "# U\n\n## A\n<!-- r:bbbb -->\n").toList
  headingStripped := none
  placedAfterSection := false

end Towns

end Crystalline.Reflection
