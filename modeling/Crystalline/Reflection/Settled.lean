import Crystalline.Reflection.ReadBack

/-!
# Reflecting settles the named sections

After the baseline is advanced to the page for some ids, the feedback changes
are the old ones without those about these ids, exactly when no named section
of the page holds a `##` heading over an id line below its own heading.
-/

namespace Crystalline.Reflection

open Text

section Advanced

variable {reflected : List Kept} {sections : List Section} {ids : List Text} {id : Text}

/-- The text the page has under an id, as an entry. -/
def pageEntry (sections : List Section) (id : Text) : List Kept :=
  ((sections.find? fun part => part.id = some id).map fun part => (id, part.text)).toList

theorem advanceOne_eq (sections : List Section) (reflected : List Kept) (id : Text) :
    advanceOne sections reflected id =
      (reflected.filter fun entry => entry.1 ≠ id) ++ pageEntry sections id := rfl

variable {entry : Kept}

theorem mem_pageEntry (member : entry ∈ pageEntry sections id) :
    entry.1 = id ∧ ∃ part ∈ sections, part.id = some id ∧ part.text = entry.2 := by
  rw [pageEntry, Option.mem_toList, Option.map_eq_some_iff] at member
  obtain ⟨part, found, rfl⟩ := member
  exact ⟨rfl, part, List.mem_of_find?_eq_some found,
    by simpa using List.find?_some found, rfl⟩

theorem filter_foldl_other (apart : id ∉ ids) :
    (ids.foldl (advanceOne sections) reflected).filter (fun entry => entry.1 = id) =
      reflected.filter fun entry => entry.1 = id := by
  induction ids generalizing reflected with
  | nil => rfl
  | cons other ids induction =>
      obtain ⟨different, later⟩ := not_or.mp (List.mem_cons.not.mp apart)
      have none : (pageEntry sections other).filter (fun entry => entry.1 = id) = [] := by
        rw [List.filter_eq_nil_iff]
        intro entry member
        rw [decide_eq_true_eq, (mem_pageEntry member).1]
        exact Ne.symm different
      have kept : (reflected.filter fun entry => entry.1 ≠ other).filter
          (fun entry => entry.1 = id) = reflected.filter fun entry => entry.1 = id := by
        rw [List.filter_filter]
        apply List.filter_congr
        intro entry _
        by_cases same : entry.1 = id <;> simp [same, different]
      rw [List.foldl_cons, induction later, advanceOne_eq, List.filter_append, kept, none,
        List.append_nil]

theorem filter_foldl_named (named : id ∈ ids) :
    (ids.foldl (advanceOne sections) reflected).filter (fun entry => entry.1 = id) =
      pageEntry sections id := by
  induction ids generalizing reflected with
  | nil => cases named
  | cons other ids induction =>
      rw [List.foldl_cons]
      by_cases later : id ∈ ids
      · exact induction later
      · obtain rfl : id = other := (List.mem_cons.mp named).resolve_right later
        have gone : (reflected.filter fun entry => entry.1 ≠ id).filter
            (fun entry => entry.1 = id) = [] := by
          rw [List.filter_filter, List.filter_eq_nil_iff]
          intro entry _
          simp
        have whole : (pageEntry sections id).filter (fun entry => entry.1 = id) =
            pageEntry sections id := by
          rw [List.filter_eq_self]
          intro entry member
          rw [decide_eq_true_eq]
          exact (mem_pageEntry member).1
        rw [filter_foldl_other later, advanceOne_eq, List.filter_append, gone, whole,
          List.nil_append]

theorem onPage_of_mem_pageEntry (member : entry ∈ pageEntry sections id) :
    onPage sections entry.1 = true := by
  obtain ⟨named, part, inside, carries, -⟩ := mem_pageEntry member
  rw [onPage, List.any_eq_true]
  exact ⟨part, inside, by simp [carries, named]⟩

theorem filter_foldl_gone :
    (ids.foldl (advanceOne sections) reflected).filter (fun entry => !onPage sections entry.1) =
      reflected.filter fun entry =>
        !onPage sections entry.1 && decide (entry.1 ∉ ids) := by
  induction ids generalizing reflected with
  | nil => simp
  | cons other ids induction =>
      have none : (pageEntry sections other).filter (fun entry =>
          !onPage sections entry.1 && decide (entry.1 ∉ ids)) = [] := by
        rw [List.filter_eq_nil_iff]
        intro entry member
        simp [onPage_of_mem_pageEntry member]
      rw [List.foldl_cons, induction, advanceOne_eq, List.filter_append, none,
        List.append_nil, List.filter_filter]
      apply List.filter_congr
      intro entry _
      by_cases same : entry.1 = other <;> simp [same]

theorem mem_foldl (member : entry ∈ ids.foldl (advanceOne sections) reflected) :
    entry ∈ reflected ∧ entry.1 ∉ ids ∨ entry.1 ∈ ids ∧
      ∃ part ∈ sections, part.id = some entry.1 ∧ part.text = entry.2 := by
  by_cases named : entry.1 ∈ ids
  · have inside : entry ∈ (ids.foldl (advanceOne sections) reflected).filter
        (fun other => other.1 = entry.1) := List.mem_filter.mpr ⟨member, by simp⟩
    rw [filter_foldl_named named] at inside
    exact .inr ⟨named, (mem_pageEntry inside).2⟩
  · have inside : entry ∈ (ids.foldl (advanceOne sections) reflected).filter
        (fun other => other.1 = entry.1) := List.mem_filter.mpr ⟨member, by simp⟩
    rw [filter_foldl_other named] at inside
    exact .inl ⟨List.mem_of_mem_filter inside, named⟩

end Advanced

section Sorting

/-- A stable sort leaves items of one place in their order. -/
theorem filter_insertionSort {Item : Type*} (place : Item → Nat) (keep : Item → Bool)
    (items : List Item)
    (alike : ∀ left ∈ items, ∀ right ∈ items, keep left = true → keep right = true →
      place left = place right) :
    (items.insertionSort fun left right => place left ≤ place right).filter keep =
      items.filter keep := by
  have pairwise : (items.filter keep).Pairwise fun left right => place left ≤ place right := by
    rw [List.pairwise_iff_forall_sublist]
    intro left right pair
    have leftMember := List.mem_filter.mp (pair.subset (by simp : left ∈ [left, right]))
    have rightMember := List.mem_filter.mp (pair.subset (by simp : right ∈ [left, right]))
    exact le_of_eq (alike left leftMember.1 right rightMember.1 leftMember.2 rightMember.2)
  have total : Std.Total fun left right : Item => place left ≤ place right :=
    ⟨fun left right => Nat.le_total _ _⟩
  have transitive : IsTrans Item fun left right => place left ≤ place right :=
    ⟨fun _ _ _ first second => Nat.le_trans first second⟩
  have inside := (List.sublist_insertionSort pairwise List.filter_sublist).filter keep
  have fixed : (items.filter keep).filter keep = items.filter keep := by
    rw [List.filter_filter]
    apply List.filter_congr
    intro item _
    exact Bool.and_self _
  rw [fixed] at inside
  have lengths := ((List.perm_insertionSort (fun left right => place left ≤ place right)
    items).filter keep).length_eq
  exact (inside.eq_of_length lengths.symm).symm

end Sorting

section Entries

variable {reflected : List Kept} {sections : List Section} {ids : List Text} {id : Text}

/-- Putting the top first moves nothing among entries on one side of it. -/
theorem filter_topFirst {entries : List Kept} {keep : Kept → Bool}
    (oneSide : (∀ entry ∈ entries, entry.1 = topSection → keep entry = false) ∨
      ∀ entry ∈ entries, entry.1 ≠ topSection → keep entry = false) :
    (topFirst entries).filter keep = entries.filter keep := by
  have without : ∀ drop : Kept → Bool, (∀ entry ∈ entries, drop entry = true → keep entry = false) →
      (entries.filter drop).filter keep = [] := by
    intro drop dropped
    rw [List.filter_filter, List.filter_eq_nil_iff]
    intro entry member
    cases kept : drop entry with
    | false => simp
    | true => simp [dropped entry member kept]
  have whole : ∀ drop : Kept → Bool, (∀ entry ∈ entries, drop entry = false → keep entry = false) →
      (entries.filter drop).filter keep = entries.filter keep := by
    intro drop dropped
    rw [List.filter_filter]
    apply List.filter_congr
    intro entry member
    cases kept : drop entry with
    | false => simp [dropped entry member kept]
    | true => simp
  rw [topFirst, List.filter_append]
  rcases oneSide with noTop | onlyTop
  · rw [without _ fun entry member kept => noTop entry member (by simpa using kept),
      whole _ fun entry member kept => noTop entry member (by simpa using kept), List.nil_append]
  · rw [whole _ fun entry member kept => onlyTop entry member (by simpa using kept),
      without _ fun entry member kept => onlyTop entry member (by simpa using kept),
      List.append_nil]

theorem filter_topFirst_id (entries : List Kept) (id : Text) :
    (topFirst entries).filter (fun entry => entry.1 = id) =
      entries.filter fun entry => entry.1 = id := by
  apply filter_topFirst
  by_cases top : id = topSection
  · right
    intro entry _ other
    rw [decide_eq_false_iff_not, top]
    exact other
  · left
    intro entry _ same
    rw [decide_eq_false_iff_not, same]
    exact Ne.symm top

theorem filter_advancedEntries (reflected : List Kept) (sections : List Section)
    (ids : List Text) (id : Text) :
    (advancedEntries reflected sections ids).filter (fun entry => entry.1 = id) =
      if id ∈ ids then pageEntry sections id
      else reflected.filter fun entry => entry.1 = id := by
  have sorted := filter_insertionSort (fun entry : Kept => placeOnPage sections entry.1)
    (fun entry => entry.1 = id) (ids.foldl (advanceOne sections) reflected) (by
      intro left _ right _ leftNamed rightNamed
      rw [decide_eq_true_eq] at leftNamed rightNamed
      rw [leftNamed, rightNamed])
  rw [advancedEntries, sorted]
  split
  next named => exact filter_foldl_named named
  next other => exact filter_foldl_other other

theorem placeOnPage_of_not_onPage (gone : onPage sections id = false) :
    placeOnPage sections id = sections.length := by
  rw [placeOnPage, List.findIdx_eq_length]
  rw [onPage, List.any_eq_false] at gone
  simpa using gone

theorem filter_advancedEntries_gone (reflected : List Kept) (sections : List Section)
    (ids : List Text) :
    (advancedEntries reflected sections ids).filter (fun entry => !onPage sections entry.1) =
      reflected.filter fun entry => !onPage sections entry.1 && decide (entry.1 ∉ ids) := by
  have sorted := filter_insertionSort (fun entry : Kept => placeOnPage sections entry.1)
    (fun entry => !onPage sections entry.1) (ids.foldl (advanceOne sections) reflected) (by
      intro left _ right _ leftGone rightGone
      rw [Bool.not_eq_true'] at leftGone rightGone
      rw [placeOnPage_of_not_onPage leftGone, placeOnPage_of_not_onPage rightGone])
  rw [advancedEntries, sorted]
  exact filter_foldl_gone

theorem mem_advancedEntries {entry : Kept} :
    entry ∈ advancedEntries reflected sections ids ↔
      entry ∈ ids.foldl (advanceOne sections) reflected :=
  List.mem_insertionSort _

end Entries

/-- Whether a change is about one of the ids. -/
def isNamed (ids : List Text) (change : SectionChange) : Bool := change.id.any (· ∈ ids)

/-- Reflecting the sections of these ids settles them, and only them: of the
feedback changes just those about them are gone. -/
def Settles (sha256Hex : Text → Text) (page baseline : Text) (ids : List Text) : Prop :=
  feedbackChanges sha256Hex page (advanceBaseline baseline page ids) =
    (feedbackChanges sha256Hex page baseline).filter fun change => !isNamed ids change

/-- No two sections of the page share an id. -/
def HasDistinctIds (page : Text) : Prop := ((splitSections page).filterMap Section.id).Nodup

/-- No section of these ids is cut when a baseline file is read. -/
def NoneCut (page : Text) (ids : List Text) : Prop :=
  ∀ part ∈ splitSections page, ∀ id ∈ ids, part.id = some id →
    hasInnerEntry (id, part.text) = false

section Page

variable {page baseline id : Text} {ids : List Text} {part : Section}

theorem find_of_distinct {sections : List Section}
    (distinct : (sections.filterMap Section.id).Nodup) (member : part ∈ sections)
    (carries : part.id = some id) :
    (sections.find? fun other => other.id = some id) = some part := by
  induction sections with
  | nil => cases member
  | cons first sections induction =>
      rcases List.mem_cons.mp member with rfl | later
      · rw [List.find?_cons_of_pos (by simpa using carries)]
      · have different : first.id ≠ some id := by
          intro same
          rw [List.filterMap_cons_some same, List.nodup_cons] at distinct
          exact distinct.1 (List.mem_filterMap.mpr ⟨part, later, carries⟩)
        have rest : (sections.filterMap Section.id).Nodup := by
          cases none : first.id with
          | none => rwa [List.filterMap_cons_none none] at distinct
          | some other =>
              rw [List.filterMap_cons_some none] at distinct
              exact (List.nodup_cons.mp distinct).2
        rw [List.find?_cons_of_neg (by simpa using different)]
        exact induction rest later

theorem pageEntry_of_distinct (distinct : HasDistinctIds page)
    (member : part ∈ splitSections page) (carries : part.id = some id) :
    pageEntry (splitSections page) id = [(id, part.text)] := by
  rw [pageEntry, find_of_distinct distinct member carries]
  rfl

theorem padded_clean {lines : List Text} (clean : ∀ line ∈ lines, IsCleanLine line) :
    ∀ line ∈ padded lines, IsCleanLine line := by
  intro line member
  rw [padded] at member
  split at member
  · rw [List.mem_singleton.mp member]
    exact isCleanLine_nil
  · exact clean line member

theorem isEntry_of_page (member : part ∈ splitSections page) (carries : part.id = some id) :
    IsEntry (id, part.text) := by
  obtain ⟨top, sections, shape, topId, ⟨lines, topText, clean⟩, texts⟩ :=
    splitSections_shape page
  rw [shape] at member
  rcases List.mem_cons.mp member with rfl | inside
  · have cut := splitNewline_padded fun line member => (clean line member).newline
    rw [topId, Option.some.injEq] at carries
    refine ⟨?_, .inl carries.symm⟩
    rw [topText, cut]
    exact padded_clean clean
  · obtain ⟨⟨first, rest, text, level, clean⟩, valid⟩ := texts part inside
    have cut := splitNewline_joinLines fun line member => (clean line member).newline
    refine ⟨?_, .inr ⟨valid id carries, ?_⟩⟩
    · rw [text, cut]
      exact clean
    · rw [text, cut]
      exact level

theorem isEntry_advanced :
    ∀ entry ∈ advancedEntries (parseBaseline baseline) (splitSections page) ids,
      IsEntry entry := by
  intro entry member
  rcases mem_foldl (mem_advancedEntries.mp member) with ⟨old, -⟩ | ⟨-, part, inside, carries, text⟩
  · exact ((parseBaseline_sound baseline).1 entry old).isEntry
  · have isEntry := isEntry_of_page inside carries
    rwa [text] at isEntry

theorem hasInner_advanced {entry : Kept}
    (member : entry ∈ advancedEntries (parseBaseline baseline) (splitSections page) ids)
    (cut : hasInnerEntry entry = true) : entry.1 ∈ ids ∧
      ∃ part ∈ splitSections page, part.id = some entry.1 ∧ part.text = entry.2 := by
  rcases mem_foldl (mem_advancedEntries.mp member) with ⟨old, -⟩ | new
  · rw [((parseBaseline_sound baseline).1 entry old).whole] at cut
    cases cut
  · exact new

theorem tops_advanced :
    ((advancedEntries (parseBaseline baseline) (splitSections page) ids).filter
      fun entry => entry.1 = topSection).length ≤ 1 := by
  rw [filter_advancedEntries]
  split
  · rw [pageEntry]
    cases (splitSections page).find? fun part => part.id = some topSection <;> simp
  · exact (parseBaseline_sound baseline).2

theorem parse_advanced (uncut : NoneCut page ids) :
    parseBaseline (advanceBaseline baseline page ids) =
      (topFirst (advancedEntries (parseBaseline baseline) (splitSections page) ids)).map
        settled := by
  refine (parseBaseline_renderBaseline_iff isEntry_advanced).mpr ⟨?_, tops_advanced⟩
  intro entry member
  cases cut : hasInnerEntry entry with
  | false => rfl
  | true =>
      obtain ⟨named, part, inside, carries, text⟩ := hasInner_advanced member cut
      have whole := uncut part inside entry.1 named carries
      rw [text, cut] at whole
      exact whole

theorem filter_map_settled (entries : List Kept) (keep : Text → Bool) :
    (entries.map settled).filter (fun entry => keep entry.1) =
      (entries.filter fun entry => keep entry.1).map settled := by
  rw [List.filter_map]
  rfl

theorem map_settled_of_sound {entries : List Kept} (sound : ∀ entry ∈ entries, IsSound entry) :
    entries.map settled = entries := by
  rw [List.map_congr_left fun entry member => (sound entry member).settles, List.map_id']

theorem reflectedText_eq (reflected : List Kept) (id : Text) :
    reflectedText reflected id =
      ((reflected.filter fun entry => entry.1 = id).head?).map Prod.snd := by
  rw [reflectedText, List.head?_filter]

end Page

section Normalized

/-- The lines of a normalized text. -/
def normalLines (text : Text) : List Text :=
  ((splitNewline text).map trimEnd).rdropWhile List.isEmpty

theorem normalizeSectionText_eq (text : Text) :
    normalizeSectionText text = joinLines (normalLines text) := rfl

theorem rdropWhile_map_trimEnd (lines : List Text) :
    ((lines.rdropWhile List.isEmpty).map trimEnd).rdropWhile List.isEmpty =
      (lines.map trimEnd).rdropWhile List.isEmpty := by
  induction lines using List.reverseRecOn with
  | nil => rfl
  | append_singleton lines last induction =>
      cases last with
      | nil =>
          have blank : trimEnd [] = [] := rfl
          rw [List.rdropWhile_concat_pos _ _ _ rfl, induction, List.map_append, List.map_cons,
            List.map_nil, blank, List.rdropWhile_concat_pos _ _ _ rfl]
      | cons char last => rw [List.rdropWhile_concat_neg _ _ _ (by simp)]

theorem normalLines_entryText {id : Text} {held : List Text}
    (clean : ∀ line ∈ held, IsCleanLine line) :
    normalLines (entryText (id, held)).2 = (held.map trimEnd).rdropWhile List.isEmpty := by
  have blank : trimEnd [] = [] := rfl
  rw [normalLines, splitNewline_entryText clean, List.map_append, List.map_cons, List.map_nil,
    blank, List.rdropWhile_concat_pos _ _ _ rfl, rdropWhile_map_trimEnd]

theorem normalizeSectionText_settled {entry : Kept} (isEntry : IsEntry entry) :
    normalizeSectionText (settled entry).2 = normalizeSectionText entry.2 := by
  rw [normalizeSectionText_eq, settled, normalLines_entryText isEntry.clean]
  rfl

end Normalized

section Settling

variable {sha256Hex : Text → Text} {page baseline id : Text} {ids : List Text} {part : Section}

theorem reflectedText_advanced (uncut : NoneCut page ids) (id : Text) :
    reflectedText (parseBaseline (advanceBaseline baseline page ids)) id =
      if id ∈ ids then ((pageEntry (splitSections page) id).map settled).head?.map Prod.snd
      else reflectedText (parseBaseline baseline) id := by
  rw [parse_advanced uncut, reflectedText_eq,
    filter_map_settled _ fun name => decide (name = id), filter_topFirst_id,
    filter_advancedEntries]
  split
  · rfl
  · rw [reflectedText_eq, map_settled_of_sound]
    intro entry member
    exact (parseBaseline_sound baseline).1 entry (List.mem_of_mem_filter member)

section

variable (distinct : HasDistinctIds page) (uncut : NoneCut page ids)
include distinct uncut

/-- A section of the page changes as before, or not at all where it is named. -/
theorem pageChange_advanced (member : part ∈ splitSections page) :
    pageChange sha256Hex (parseBaseline (advanceBaseline baseline page ids)) part =
      (pageChange sha256Hex (parseBaseline baseline) part).filter
        fun change => !isNamed ids change := by
  have kept : ∀ reflected, (part.id.all fun id => id ∉ ids) = true →
      (pageChange sha256Hex reflected part).filter (fun change => !isNamed ids change) =
        pageChange sha256Hex reflected part := by
    intro reflected other
    have about : ∀ kind, (!isNamed ids
        { id := part.id
          heading := part.heading
          kind
          before := (part.id.bind (reflectedText reflected)).getD []
          after := part.text }) = true := by
      intro kind
      cases carries : part.id with
      | none => rfl
      | some id => simpa [isNamed, carries] using other
    rw [pageChange]
    cases changeKind sha256Hex reflected part with
    | none => rfl
    | some kind => exact Option.filter_some_pos (about kind)
  cases carries : part.id with
  | none =>
      rw [kept _ (by simp [carries]), pageChange, pageChange, changeKind, changeKind, carries]
      rfl
  | some id =>
      have text := @reflectedText_advanced page baseline ids uncut id
      by_cases named : id ∈ ids
      · rw [if_pos named, pageEntry_of_distinct distinct member carries] at text
        have same := normalizeSectionText_settled (isEntry_of_page member carries)
        have settles : changeKind sha256Hex
            (parseBaseline (advanceBaseline baseline page ids)) part = none := by
          rw [changeKind, carries, Option.bind_some, text]
          simp [sectionHash, same]
        rw [pageChange, settles, Option.map_none, eq_comm, Option.filter_eq_none_iff]
        intro change found
        obtain ⟨kind, -, rfl⟩ := Option.map_eq_some_iff.mp found
        simp [isNamed, carries, named]
      · rw [if_neg named] at text
        rw [kept _ (by simpa [carries] using named), pageChange, pageChange, changeKind,
          changeKind, carries, Option.bind_some, text, Option.bind_some]

theorem settles_of_uncut : Settles sha256Hex page baseline ids := by
  have topOnPage : onPage (splitSections page) topSection = true := by
    obtain ⟨top, sections, shape, topId, -⟩ := splitSections_shape page
    rw [onPage, shape, List.any_cons, topId]
    simp
  have removed : ((parseBaseline (advanceBaseline baseline page ids)).filter
      fun entry => !onPage (splitSections page) entry.1) =
        (parseBaseline baseline).filter fun entry =>
          !onPage (splitSections page) entry.1 && decide (entry.1 ∉ ids) := by
    have noTop : ∀ entry ∈ advancedEntries (parseBaseline baseline) (splitSections page) ids,
        entry.1 = topSection → (!onPage (splitSections page) entry.1) = false := by
      intro entry _ isTop
      rw [isTop, topOnPage]
      rfl
    rw [parse_advanced uncut, filter_map_settled _ fun name => !onPage (splitSections page) name,
      filter_topFirst (.inl noTop), filter_advancedEntries_gone, map_settled_of_sound]
    intro entry member
    exact (parseBaseline_sound baseline).1 entry (List.mem_of_mem_filter member)
  rw [Settles, feedbackChanges, feedbackChanges, List.filter_append]
  have pages : (splitSections page).filterMap
      (pageChange sha256Hex (parseBaseline (advanceBaseline baseline page ids))) =
        ((splitSections page).filterMap (pageChange sha256Hex (parseBaseline baseline))).filter
          fun change => !isNamed ids change := by
    rw [List.filter_filterMap]
    exact List.filterMap_congr fun part member => pageChange_advanced distinct uncut member
  have gone : ((parseBaseline baseline).filter fun entry =>
      !onPage (splitSections page) entry.1 && decide (entry.1 ∉ ids)).map removedChange =
        (((parseBaseline baseline).filter fun entry =>
          !onPage (splitSections page) entry.1).map removedChange).filter
            fun change => !isNamed ids change := by
    rw [List.filter_map, List.filter_filter]
    congr 1
    apply List.filter_congr
    intro entry _
    rw [Bool.and_comm, Function.comp_apply, isNamed, removedChange]
    simp
  rw [pages, removed, gone]

end

end Settling

end Crystalline.Reflection
