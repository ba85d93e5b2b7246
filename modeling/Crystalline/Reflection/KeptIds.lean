import Crystalline.Reflection.Placement

/-!
# When a section edit keeps the section ids

Every edit fits the page it is made in, so what holds of an edit at any place
holds of the edits at a heading.
-/

namespace Crystalline.Reflection

open Text Keyed

/-- The headings of a page without its id lines, each with the id it carries on
the page. -/
def carried (bare page : Text) : List (HeadingSpan × Option Text) :=
  (levelTwo bare).zip ((headingIds page).map Prod.snd)

/-- A heading as the ids are handed back by it. -/
def entryOf (pair : HeadingSpan × Option Text) : Text × Option Text :=
  (trim pair.1.text, pair.2)

/-- The ids the lines of a text spell. -/
def spelledIds (content : Text) : List Text := (splitInclusive content).filterMap rawId

/-- What an edit of a section puts where, on the page without its id lines. -/
def editSplice (source : Text) (op : SectionOp) (target : Target) (content : Text) : Splice :=
  sectionSplice (withoutIdLines source) (headingSpans (withoutIdLines source)) target content op

section Pages

variable (source : Text) (splice : Splice)

/-- The page with the content in place, before the ids are handed back. -/
def placedPage : Text := splice.apply (withoutIdLines source)

/-- The edit took out the section of this id, and it had this heading. -/
def Replaced (text id : Text) : Prop :=
  ∃ heading, (heading, some id) ∈ carried (withoutIdLines source) source ∧
    splice.keeps heading = false ∧ trim heading.text = text

/-- The sections the edit took out. -/
def removedEntries : List (Text × Option Text) :=
  ((carried (withoutIdLines source) source).filter fun pair => !splice.keeps pair.1).map entryOf

/-- The sections behind the place of the edit. -/
def laterEntries : List (Text × Option Text) :=
  ((carried (withoutIdLines source) source).filter fun pair =>
    splice.stop ≤ pair.1.lineStart).map entryOf

/-- Where the kept headings stand on the page with the content. -/
def keptStarts : List Nat :=
  ((levelTwo (withoutIdLines source)).filter splice.keeps).map fun heading =>
    splice.shift heading.lineStart

/-- The headings of the page with the content that were not there before. -/
def addedEntries : List (Text × Option Text) :=
  ((levelTwo (placedPage source splice)).filter fun heading =>
    heading.lineStart ∉ keptStarts source splice).map fun heading =>
      (trim heading.text, (idUnder (placedPage source splice) heading).map Prod.fst)

/-- No section id moved: every kept heading carries what it carried, a heading of
the content only an id the content spells or the section it replaces had, and no
id is there twice. -/
structure KeepsIds (content output : Text) : Prop where
  kept : ∀ heading id, (heading, id) ∈ carried (withoutIdLines source) source →
    splice.keeps heading = true →
      ∃ found, (found, id) ∈ carried (placedPage source splice) output ∧
        found.lineStart = splice.shift heading.lineStart
  brought : ∀ heading id, (heading, some id) ∈ carried (placedPage source splice) output →
    splice.brings heading = true →
      id ∈ spelledIds content ∨ Replaced source splice (trim heading.text) id
  distinct : (presentIds output).Nodup

/-- When the ids are handed back where they were. -/
structure HandsBack (content : Text) : Prop where
  /-- No fence and no frontmatter of the content swallows a kept heading. -/
  read : ∀ heading ∈ levelTwo (withoutIdLines source), splice.keeps heading = true →
    ∃ found ∈ levelTwo (placedPage source splice),
      found.lineStart = splice.shift heading.lineStart
  /-- No id is written twice. -/
  written : (presentIds (placedPage source splice)).Nodup
  /-- A kept heading stands over its id line when its id is written at all, and
  over none otherwise; one that is not offered its id has none to lose. -/
  own : ∀ heading id, (heading, id) ∈ carried (withoutIdLines source) source →
    splice.keeps heading = true → ∀ found ∈ levelTwo (placedPage source splice),
      found.lineStart = splice.shift heading.lineStart →
        (idUnder (placedPage source splice) found).map Prod.fst =
          (ownTaker (offered (placedPage source splice)) (entryOf (heading, id))).2
  /-- The id lines under the headings of the content are its own. -/
  spelled : ∀ found ∈ levelTwo (placedPage source splice), splice.brings found = true →
    ∀ id, (idUnder (placedPage source splice) found).map Prod.fst = some id →
      id ∈ spelledIds content ∨ Replaced source splice (trim found.text) id
  /-- As many headings of a text are added as removed, or no kept one behind them
  has an id to lose or to get. -/
  balanced : ∀ text, Balanced (offered (placedPage source splice))
    (removedEntries source splice) (addedEntries source splice) (laterEntries source splice) text

end Pages

section Pairs

variable {First : Type*} {Second : Type*} {Third : Type*} {Mark : Type*} {left : List First}
  {right : List Second}

theorem map_eq_of_marks {mark : First → Mark} {other : Second → Mark} {value : First → Third}
    {wanted : Second → Third} (marks : left.map mark = right.map other)
    (same : ∀ first ∈ left, ∀ second ∈ right, mark first = other second →
      value first = wanted second) : left.map value = right.map wanted := by
  induction left generalizing right with
  | nil =>
      cases right with
      | nil => rfl
      | cons second right => cases marks
  | cons first left induction =>
      cases right with
      | nil => cases marks
      | cons second right =>
          obtain ⟨head, tail⟩ := List.cons.inj marks
          rw [List.map_cons, List.map_cons,
            same first List.mem_cons_self second List.mem_cons_self head]
          refine congrArg _ (induction tail ?_)
          intro one inLeft two inRight
          exact same one (List.mem_cons_of_mem _ inLeft) two (List.mem_cons_of_mem _ inRight)

theorem exists_zip_of_marks {right : List (Second × Third)} {mark : First → Mark}
    {other : Second → Mark} (marks : left.map mark = right.map fun pair => other pair.1)
    {pair : Second × Third} (member : pair ∈ right) :
    ∃ first, (first, pair.2) ∈ left.zip (right.map Prod.snd) ∧ mark first = other pair.1 := by
  induction left generalizing right with
  | nil =>
      cases right with
      | nil => cases member
      | cons second right => cases marks
  | cons first left induction =>
      cases right with
      | nil => cases marks
      | cons second right =>
          obtain ⟨head, tail⟩ := List.cons.inj marks
          rcases List.mem_cons.mp member with rfl | member
          · exact ⟨first, List.mem_cons_self, head⟩
          · obtain ⟨found, inside, same⟩ := induction tail member
            exact ⟨found, List.mem_cons_of_mem _ inside, same⟩

theorem eq_of_parts {left right : List (First × Second)}
    (firsts : left.map Prod.fst = right.map Prod.fst)
    (seconds : left.map Prod.snd = right.map Prod.snd) : left = right := by
  have whole := congrArg₂ List.zip firsts seconds
  have zipped : ∀ pairs : List (First × Second),
      (pairs.map Prod.fst).zip (pairs.map Prod.snd) = pairs := by
    intro pairs
    rw [List.zip_map', List.map_id']
  rwa [zipped, zipped] at whole

theorem map_fst_zip (length : left.length = right.length) : (left.zip right).map Prod.fst = left :=
  List.map_fst_zip (Nat.le_of_eq length)

end Pairs

section Carrying

variable {source bare page : Text} {splice : Splice}

/-- The heading and the id a page's heading stands over. -/
def writtenEntry (page : Text) (heading : HeadingSpan) : Text × Option Text :=
  (trim heading.text, (idUnder page heading).map Prod.fst)

theorem headingIds_map (page : Text) : headingIds page = (levelTwo page).map (writtenEntry page) :=
  rfl

/-- A page and the page without its id lines have the same headings. -/
structure SameHeadings (bare page : Text) : Prop where
  texts : (headingIds page).map Prod.fst = (headingIds bare).map Prod.fst

section

variable (same : SameHeadings bare page)
include same

theorem SameHeadings.length : (levelTwo bare).length = ((headingIds page).map Prod.snd).length := by
  have lengths := congrArg List.length same.texts
  simpa [headingIds] using lengths.symm

theorem SameHeadings.map_fst : (carried bare page).map Prod.fst = levelTwo bare :=
  map_fst_zip same.length

theorem SameHeadings.map_snd : (carried bare page).map Prod.snd = (headingIds page).map Prod.snd :=
  List.map_snd_zip (Nat.le_of_eq same.length.symm)

theorem SameHeadings.map_entryOf : (carried bare page).map entryOf = headingIds page := by
  have texts : (carried bare page).map (fun pair => (entryOf pair).1) =
      (headingIds page).map Prod.fst := by
    have first := congrArg (List.map fun heading : HeadingSpan => trim heading.text) same.map_fst
    rw [List.map_map] at first
    rw [same.texts, headingIds, List.map_map]
    exact first
  have ids : (carried bare page).map (fun pair => (entryOf pair).2) =
      (headingIds page).map Prod.snd := same.map_snd
  apply eq_of_parts
  · rw [List.map_map]
    exact texts
  · rw [List.map_map]
    exact ids

end

theorem sameHeadings_withoutIdLines (source : Text) :
    SameHeadings (withoutIdLines source) source :=
  ⟨(headingIds_withoutIdLines source).symm⟩

theorem sameHeadings_reattachIds (incoming previous : Text) :
    SameHeadings incoming (reattachIds incoming previous) := by
  refine ⟨?_⟩
  rw [reattachIds_eq]
  exact headingIds_texts_editIds sound_reattaching (spareIds_valid incoming previous)

theorem SameHeadings.sorted (same : SameHeadings bare page) :
    (carried bare page).Pairwise fun earlier later =>
      earlier.1.lineStart < later.1.lineStart := by
  have order := levelTwo_sorted bare
  rw [← same.map_fst, List.pairwise_map] at order
  exact order

theorem SameHeadings.unique (same : SameHeadings bare page)
    {first second : HeadingSpan × Option Text} (firstMember : first ∈ carried bare page)
    (secondMember : second ∈ carried bare page)
    (place : first.1.lineStart = second.1.lineStart) : first = second := by
  have order := same.sorted
  have distinct : ((carried bare page).map fun pair => pair.1.lineStart).Nodup := by
    rw [List.Nodup, List.pairwise_map]
    exact order.imp fun before equal => by omega
  exact List.inj_on_of_nodup_map distinct firstMember secondMember place

end Carrying

section Layout

variable {source content : Text} {splice : Splice}

/-- The pairs before the place of an edit. -/
def keptBefore (source : Text) (splice : Splice) : List (HeadingSpan × Option Text) :=
  (carried (withoutIdLines source) source).filter fun pair =>
    pair.1.lineStart < splice.start

/-- The pairs the edit took out. -/
def removedPairs (source : Text) (splice : Splice) : List (HeadingSpan × Option Text) :=
  (carried (withoutIdLines source) source).filter fun pair => !splice.keeps pair.1

/-- The pairs behind the place of an edit. -/
def keptBehind (source : Text) (splice : Splice) : List (HeadingSpan × Option Text) :=
  (carried (withoutIdLines source) source).filter fun pair =>
    splice.stop ≤ pair.1.lineStart

theorem carried_split (fits : splice.Fits (withoutIdLines source)) :
    carried (withoutIdLines source) source =
      keptBefore source splice ++ (removedPairs source splice ++ keptBehind source splice) := by
  have order := fits.order
  have sorted := (sameHeadings_withoutIdLines source).sorted
  have first := split_sorted sorted splice.start
  have second := split_sorted (sorted.filter fun pair => splice.start ≤ pair.1.lineStart)
    splice.stop
  have removed : ((carried (withoutIdLines source) source).filter fun pair =>
      splice.start ≤ pair.1.lineStart).filter (fun pair => pair.1.lineStart < splice.stop) =
        removedPairs source splice := by
    rw [List.filter_filter, removedPairs]
    apply List.filter_congr
    intro pair _
    rw [Bool.eq_iff_iff]
    simp only [Splice.keeps, Bool.and_eq_true, decide_eq_true_eq, Bool.not_or,
      Bool.not_eq_true', decide_eq_false_iff_not]
    omega
  have behind : ((carried (withoutIdLines source) source).filter fun pair =>
      splice.start ≤ pair.1.lineStart).filter (fun pair => splice.stop ≤ pair.1.lineStart) =
        keptBehind source splice := by
    rw [List.filter_filter, keptBehind]
    apply List.filter_congr
    intro pair _
    rw [Bool.eq_iff_iff]
    simp only [Bool.and_eq_true, decide_eq_true_eq]
    omega
  rw [removed, behind] at second
  rw [second] at first
  exact first

variable {pair : HeadingSpan × Option Text}

theorem mem_keptBefore (member : pair ∈ keptBefore source splice) :
    pair ∈ carried (withoutIdLines source) source ∧ splice.keeps pair.1 = true := by
  obtain ⟨inside, early⟩ := List.mem_filter.mp member
  exact ⟨inside, by rw [Splice.keeps, early, Bool.true_or]⟩

theorem mem_keptBehind (member : pair ∈ keptBehind source splice) :
    pair ∈ carried (withoutIdLines source) source ∧ splice.keeps pair.1 = true := by
  obtain ⟨inside, late⟩ := List.mem_filter.mp member
  exact ⟨inside, by rw [Splice.keeps, late, Bool.or_true]⟩

/-- The headings of the page with the content, when it swallows none. -/
theorem exists_layout (fits : splice.Fits (withoutIdLines source))
    (read : ∀ heading ∈ levelTwo (withoutIdLines source), splice.keeps heading = true →
      ∃ found ∈ levelTwo (placedPage source splice),
        found.lineStart = splice.shift heading.lineStart) :
    ∃ front added back, levelTwo (placedPage source splice) = front ++ (added ++ back) ∧
      front.map (mark 0) = (keptBefore source splice).map (fun pair => splice.moved pair.1) ∧
      back.map (mark 0) = (keptBehind source splice).map (fun pair => splice.moved pair.1) ∧
      addedEntries source splice = added.map (writtenEntry (placedPage source splice)) ∧
      (∀ heading ∈ front, splice.brings heading = false) ∧
      ∀ heading ∈ back, splice.brings heading = false := by
  obtain ⟨front, added, back, whole, frontMarks, backMarks, early, between, late⟩ :=
    levelTwo_apply fits read
  have pairs : ∀ keep : HeadingSpan → Bool,
      ((levelTwo (withoutIdLines source)).filter keep).map splice.moved =
        ((carried (withoutIdLines source) source).filter fun pair => keep pair.1).map
          fun pair => splice.moved pair.1 := by
    intro keep
    rw [← (sameHeadings_withoutIdLines source).map_fst, List.filter_map, List.map_map]
    rfl
  refine ⟨front, added, back, whole, frontMarks.trans (pairs _), backMarks.trans (pairs _), ?_,
    ?_, ?_⟩
  · have known : ∀ {heading : HeadingSpan} {keep : HeadingSpan → Bool},
        (∀ other, keep other = true → splice.keeps other = true) →
        mark 0 heading ∈ ((levelTwo (withoutIdLines source)).filter keep).map splice.moved →
          heading.lineStart ∈ keptStarts source splice := by
      intro heading keep keeps member
      obtain ⟨other, inside, same⟩ := List.mem_map.mp member
      obtain ⟨found, holds⟩ := List.mem_filter.mp inside
      refine List.mem_map.mpr ⟨other, List.mem_filter.mpr ⟨found, keeps other holds⟩, ?_⟩
      have place := congrArg Prod.snd same
      simpa [mark, Splice.moved] using place
    have frontKnown : ∀ heading ∈ front, heading.lineStart ∈ keptStarts source splice := by
      intro heading member
      have marked := List.mem_map_of_mem (f := mark 0) member
      rw [frontMarks] at marked
      refine known ?_ marked
      intro other before
      rw [Splice.keeps, before, Bool.true_or]
    have backKnown : ∀ heading ∈ back, heading.lineStart ∈ keptStarts source splice := by
      intro heading member
      have marked := List.mem_map_of_mem (f := mark 0) member
      rw [backMarks] at marked
      refine known ?_ marked
      intro other behind
      rw [Splice.keeps, behind, Bool.or_true]
    have new : ∀ heading ∈ added, heading.lineStart ∉ keptStarts source splice := by
      intro heading member again
      obtain ⟨other, inside, place⟩ := List.mem_map.mp again
      obtain ⟨found, keeps⟩ := List.mem_filter.mp inside
      exact (between heading member).2 other found keeps place.symm
    have placed : levelTwo (placedPage source splice) = front ++ (added ++ back) := whole
    rw [addedEntries, placed, List.filter_append, List.filter_append,
      List.filter_eq_nil_iff.mpr fun heading member => by simpa using frontKnown heading member,
      List.filter_eq_self.mpr fun heading member => by simpa using new heading member,
      List.filter_eq_nil_iff.mpr fun heading member => by simpa using backKnown heading member,
      List.nil_append, List.append_nil]
    rfl
  · intro heading member
    have before := early heading member
    rw [Splice.brings, Bool.and_eq_false_iff]
    left
    simpa using before
  · intro heading member
    have behind := late heading member
    rw [Splice.brings, Bool.and_eq_false_iff]
    right
    simpa using behind

theorem silent_offered (incoming : Text) : Silent (offered incoming) := by
  intro entry unoffered absent other offers same
  rw [offered, absent] at unoffered
  have unnamed : entry.1 = [] := by simpa using unoffered
  rw [offered, Bool.and_eq_true, same, unnamed] at offers
  simp at offers

end Layout

section Handed

variable {source content : Text} {splice : Splice} {front added back : List HeadingSpan}

theorem entries_split (fits : splice.Fits (withoutIdLines source)) :
    headingIds source = (keptBefore source splice).map entryOf ++
      (removedEntries source splice ++ laterEntries source splice) := by
  have whole := (sameHeadings_withoutIdLines source).map_entryOf
  rw [carried_split fits, List.map_append, List.map_append] at whole
  exact whole.symm

theorem takers_eq {headings : List HeadingSpan} {pairs : List (HeadingSpan × Option Text)}
    (marks : headings.map (mark 0) = pairs.map fun pair => splice.moved pair.1)
    (own : ∀ heading ∈ headings, ∀ pair ∈ pairs, mark 0 heading = splice.moved pair.1 →
      (idUnder (placedPage source splice) heading).map Prod.fst =
        (ownTaker (offered (placedPage source splice)) (entryOf pair)).2) :
    headings.map (writtenEntry (placedPage source splice)) =
      (pairs.map entryOf).map (ownTaker (offered (placedPage source splice))) := by
  rw [List.map_map]
  apply map_eq_of_marks marks
  intro heading inside pair member same
  have texts := congrArg Prod.fst same
  apply Prod.ext
  · exact congrArg trim texts
  · exact own heading inside pair member same

/-- What is handed back, when the takers before the content and those behind it
are the kept headings. -/
theorem handed_eq (fits : splice.Fits (withoutIdLines source))
    (whole : levelTwo (placedPage source splice) = front ++ (added ++ back))
    (entries : addedEntries source splice =
      added.map (writtenEntry (placedPage source splice)))
    (frontTakers : front.map (writtenEntry (placedPage source splice)) =
      ((keptBefore source splice).map entryOf).map
        (ownTaker (offered (placedPage source splice))))
    (backTakers : back.map (writtenEntry (placedPage source splice)) =
      (laterEntries source splice).map (ownTaker (offered (placedPage source splice)))) :
    (headingIds (reattachIds (placedPage source splice) source)).map Prod.snd =
      (keptBefore source splice).map Prod.snd ++
        handOut ((removedEntries source splice ++ laterEntries source splice).filter
          (offered (placedPage source splice)))
          (addedEntries source splice ++
            (laterEntries source splice).map (ownTaker (offered (placedPage source splice)))) := by
  have kept := handOut_kept (silent_offered (placedPage source splice))
    ((keptBefore source splice).map entryOf)
    (removedEntries source splice ++ laterEntries source splice)
    (addedEntries source splice ++
      (laterEntries source splice).map (ownTaker (offered (placedPage source splice))))
  rw [headingIds_reattachIds, entries_split fits, headingIds_map, whole, List.map_append,
    List.map_append, frontTakers, backTakers, ← entries, kept, List.map_map]
  rfl

theorem nodup_entries (distinct : (presentIds source).Nodup)
    (fits : splice.Fits (withoutIdLines source)) :
    ((removedEntries source splice ++ laterEntries source splice).filterMap
      Prod.snd).Nodup := by
  rw [presentIds_eq, entries_split fits] at distinct
  exact distinct.sublist ((List.sublist_append_right _ _).filterMap _)

theorem place_of_mark {heading : HeadingSpan} {pair : HeadingSpan × Option Text}
    (same : mark 0 heading = splice.moved pair.1) :
    heading.lineStart = splice.shift pair.1.lineStart := by
  simpa [mark, Splice.moved] using congrArg Prod.snd same

/-- The headings of the page with the content, when each kept one is a taker of
its own, and what is handed back then. -/
theorem exists_handed (fits : splice.Fits (withoutIdLines source))
    (read : ∀ heading ∈ levelTwo (withoutIdLines source), splice.keeps heading = true →
      ∃ found ∈ levelTwo (placedPage source splice),
        found.lineStart = splice.shift heading.lineStart)
    (own : ∀ heading id, (heading, id) ∈ carried (withoutIdLines source) source →
      splice.keeps heading = true → ∀ found ∈ levelTwo (placedPage source splice),
        found.lineStart = splice.shift heading.lineStart →
          (idUnder (placedPage source splice) found).map Prod.fst =
            (ownTaker (offered (placedPage source splice)) (entryOf (heading, id))).2) :
    ∃ front added back, levelTwo (placedPage source splice) = front ++ (added ++ back) ∧
      front.map (mark 0) = (keptBefore source splice).map (fun pair => splice.moved pair.1) ∧
      back.map (mark 0) = (keptBehind source splice).map (fun pair => splice.moved pair.1) ∧
      addedEntries source splice = added.map (writtenEntry (placedPage source splice)) ∧
      (∀ heading ∈ front, splice.brings heading = false) ∧
      (∀ heading ∈ back, splice.brings heading = false) ∧
      (headingIds (reattachIds (placedPage source splice) source)).map Prod.snd =
        (keptBefore source splice).map Prod.snd ++
          handOut ((removedEntries source splice ++ laterEntries source splice).filter
            (offered (placedPage source splice)))
            (addedEntries source splice ++ (laterEntries source splice).map
              (ownTaker (offered (placedPage source splice)))) := by
  obtain ⟨front, added, back, whole, frontMarks, backMarks, entries, frontOld, backOld⟩ :=
    exists_layout fits read
  have member : ∀ heading, heading ∈ front ∨ heading ∈ back →
      heading ∈ levelTwo (placedPage source splice) := by
    intro heading inside
    rw [whole, List.mem_append, List.mem_append]
    exact inside.imp_right .inr
  have frontTakers := takers_eq frontMarks (by
    intro heading inside pair found same
    obtain ⟨carries, keeps⟩ := mem_keptBefore found
    exact own pair.1 pair.2 carries keeps heading (member heading (.inl inside))
      (place_of_mark same))
  have backTakers := takers_eq backMarks (by
    intro heading inside pair found same
    obtain ⟨carries, keeps⟩ := mem_keptBehind found
    exact own pair.1 pair.2 carries keeps heading (member heading (.inr inside))
      (place_of_mark same))
  exact ⟨front, added, back, whole, frontMarks, backMarks, entries, frontOld, backOld,
    handed_eq fits whole entries frontTakers backTakers⟩

section

variable (whole : levelTwo (placedPage source splice) = front ++ (added ++ back))
  (frontMarks : front.map (mark 0) =
    (keptBefore source splice).map fun pair => splice.moved pair.1)
  {given : List (Option Text)}
  (handed : (headingIds (reattachIds (placedPage source splice) source)).map Prod.snd =
    (keptBefore source splice).map Prod.snd ++ given)
include whole frontMarks handed

/-- The headings of the page with the content and what each is handed. -/
theorem carried_placed :
    carried (placedPage source splice) (reattachIds (placedPage source splice) source) =
        front.zip ((keptBefore source splice).map Prod.snd) ++
          (added.zip (given.take added.length) ++ back.zip (given.drop added.length)) ∧
      back.length = (given.drop added.length).length := by
  have frontLength := congrArg List.length frontMarks
  rw [List.length_map, List.length_map] at frontLength
  have lengths := (sameHeadings_reattachIds (placedPage source splice) source).length
  rw [handed, whole, List.length_append, List.length_append, List.length_append,
    List.length_map] at lengths
  have first : front.length = ((keptBefore source splice).map Prod.snd).length := by
    rw [frontLength, List.length_map]
  have second : added.length = (given.take added.length).length := by
    rw [List.length_take]
    omega
  refine ⟨?_, by rw [List.length_drop]; omega⟩
  rw [carried, whole, handed, List.zip_append first]
  congr 1
  rw [← List.zip_append second, List.take_append_drop]

theorem carried_handed
    (entries : addedEntries source splice =
      added.map (writtenEntry (placedPage source splice)))
    (behind : given.drop (addedEntries source splice).length =
      (laterEntries source splice).map Prod.snd) :
    carried (placedPage source splice) (reattachIds (placedPage source splice) source) =
      front.zip ((keptBefore source splice).map Prod.snd) ++
        (added.zip (given.take added.length) ++
          back.zip ((keptBehind source splice).map Prod.snd)) := by
  have later : (laterEntries source splice).map Prod.snd =
      (keptBehind source splice).map Prod.snd := List.map_map
  rw [entries, List.length_map, later] at behind
  rw [(carried_placed whole frontMarks handed).1, behind]

end

variable {incoming previous : Text}

theorem nodup_reattachIds (written : (presentIds incoming).Nodup)
    (distinct : (presentIds previous).Nodup) :
    (presentIds (reattachIds incoming previous)).Nodup := by
  have given : (headingIds (reattachIds incoming previous)).filterMap Prod.snd =
      ((headingIds (reattachIds incoming previous)).map Prod.snd).filterMap id := by
    rw [List.filterMap_map]
    rfl
  rw [presentIds_eq, given, headingIds_reattachIds]
  apply nodup_handOut
  rw [List.nodup_append]
  rw [presentIds_eq] at distinct
  refine ⟨by rwa [← presentIds_eq], distinct.sublist (List.filter_sublist.filterMap _), ?_⟩
  intro id carried other spare same
  obtain ⟨entry, member, holds⟩ := List.mem_filterMap.mp spare
  have offers := (List.mem_filter.mp member).2
  rw [offered, holds, Bool.and_eq_true] at offers
  rw [← presentIds_eq, same] at carried
  simp [carried] at offers

/-- The ids stay where they are when they are handed back so. -/
theorem HandsBack.keepsIds (distinct : (presentIds source).Nodup)
    (fits : splice.Fits (withoutIdLines source)) (right : HandsBack source splice content) :
    KeepsIds source splice content (reattachIds (placedPage source splice) source) := by
  obtain ⟨front, added, back, whole, frontMarks, backMarks, entries, frontOld, backOld, handed⟩ :=
    exists_handed fits right.read right.own
  have silent := silent_offered (placedPage source splice)
  have spare := nodup_entries distinct fits
  have behind := (handOut_later silent (removedEntries source splice)
    (addedEntries source splice) (laterEntries source splice) spare).mpr right.balanced
  have pairs := carried_handed whole frontMarks handed entries behind
  have old : ∀ pair ∈ carried (withoutIdLines source) source, splice.keeps pair.1 = true →
      ∃ found, (found, pair.2) ∈
        carried (placedPage source splice) (reattachIds (placedPage source splice) source) ∧
          mark 0 found = splice.moved pair.1 := by
    intro pair carries keeps
    rw [carried_split fits] at carries
    rcases List.mem_append.mp carries with before | later
    · obtain ⟨found, inside, same⟩ :=
        @exists_zip_of_marks _ _ _ _ _ _ _ splice.moved frontMarks pair before
      refine ⟨found, ?_, same⟩
      rw [pairs]
      exact List.mem_append_left _ inside
    · rcases List.mem_append.mp later with removed | later
      · have gone := (List.mem_filter.mp removed).2
        rw [keeps] at gone
        cases gone
      · obtain ⟨found, inside, same⟩ :=
          @exists_zip_of_marks _ _ _ _ _ _ _ splice.moved backMarks pair later
        refine ⟨found, ?_, same⟩
        rw [pairs]
        exact List.mem_append_right _ (List.mem_append_right _ inside)
  refine ⟨?_, ?_, ?_⟩
  · intro heading id carries keeps
    obtain ⟨found, inside, same⟩ := old (heading, id) carries keeps
    exact ⟨found, inside, place_of_mark same⟩
  · intro heading id handedTo brings
    rw [pairs] at handedTo
    rcases List.mem_append.mp handedTo with before | later
    · rw [frontOld heading (List.of_mem_zip before).1] at brings
      cases brings
    · rcases List.mem_append.mp later with new | later
      · have taken : (writtenEntry (placedPage source splice) heading, some id) ∈
            (addedEntries source splice).zip
              ((handOut ((removedEntries source splice ++ laterEntries source splice).filter
                (offered (placedPage source splice))) (addedEntries source splice ++
                  (laterEntries source splice).map
                    (ownTaker (offered (placedPage source splice))))).take
                      (addedEntries source splice).length) := by
          rw [entries, List.length_map, List.zip_map_left]
          rw [entries] at new
          exact List.mem_map.mpr ⟨_, new, rfl⟩
        rcases handOut_added right.balanced taken with own | removed
        · have placed : heading ∈ levelTwo (placedPage source splice) := by
            rw [whole]
            simp [(List.of_mem_zip new).1]
          exact right.spelled heading placed brings id own
        · obtain ⟨pair, inside, same⟩ := List.mem_map.mp removed
          obtain ⟨carries, gone⟩ := List.mem_filter.mp inside
          obtain ⟨text, carriedId⟩ := Prod.mk.inj same
          refine .inr ⟨pair.1, ?_, by simpa using gone, text⟩
          rw [← carriedId]
          exact carries
      · rw [backOld heading (List.of_mem_zip later).1] at brings
        cases brings
  · exact nodup_reattachIds right.written distinct

theorem handed_writtenEntry {incoming page : Text} {heading : HeadingSpan} {id : Option Text}
    (member : (heading, id) ∈ carried incoming page) :
    (writtenEntry incoming heading, id) ∈
      (headingIds incoming).zip ((headingIds page).map Prod.snd) := by
  rw [headingIds_map, List.zip_map_left]
  exact List.mem_map.mpr ⟨_, member, rfl⟩

/-- A heading that was handed the id of an entry stood over that id, or over none
and the id was offered. -/
theorem ownTaker_of_handed {taker entry : Text × Option Text}
    (handed : (taker, entry.2) ∈ (headingIds incoming).zip
      ((headingIds (reattachIds incoming previous)).map Prod.snd)) (text : taker.1 = entry.1) :
    taker = ownTaker (offered incoming) entry := by
  rw [headingIds_reattachIds] at handed
  obtain ⟨title, own⟩ := taker
  obtain ⟨name, id⟩ := entry
  obtain rfl : title = name := text
  cases own with
  | some value =>
      obtain rfl : id = some value := handOut_keeps handed
      have present : value ∈ presentIds incoming := by
        rw [presentIds_eq]
        exact List.mem_filterMap.mpr ⟨_, (List.of_mem_zip handed).1, rfl⟩
      have kept : offered incoming (title, some value) = false := by simp [offered, present]
      rw [ownTaker, kept]
      rfl
  | none =>
      cases offers : offered incoming (title, id) with
      | true => rw [ownTaker, if_pos offers]
      | false =>
          cases id with
          | none => rw [ownTaker, offers]; rfl
          | some value =>
              rcases mem_handOut handed with own | ⟨-, spare⟩
              · cases own
              · rw [(List.mem_filter.mp spare).2] at offers
                cases offers

/-- A heading stands at the place of every kept one, with its text. -/
theorem exists_marked (fits : splice.Fits (withoutIdLines source))
    (read : ∀ heading ∈ levelTwo (withoutIdLines source), splice.keeps heading = true →
      ∃ found ∈ levelTwo (placedPage source splice),
        found.lineStart = splice.shift heading.lineStart)
    {pair : HeadingSpan × Option Text} (carries : pair ∈ carried (withoutIdLines source) source)
    (keeps : splice.keeps pair.1 = true) :
    ∃ found ∈ levelTwo (placedPage source splice), mark 0 found = splice.moved pair.1 := by
  obtain ⟨front, added, back, whole, frontMarks, backMarks, -⟩ := exists_layout fits read
  have marked : splice.moved pair.1 ∈ front.map (mark 0) ∨
      splice.moved pair.1 ∈ back.map (mark 0) := by
    rw [frontMarks, backMarks]
    rw [Splice.keeps, Bool.or_eq_true] at keeps
    rcases keeps with early | late
    · exact .inl (List.mem_map.mpr ⟨pair, List.mem_filter.mpr ⟨carries, early⟩, rfl⟩)
    · exact .inr (List.mem_map.mpr ⟨pair, List.mem_filter.mpr ⟨carries, late⟩, rfl⟩)
  rcases marked with marked | marked
  · obtain ⟨found, inside, equal⟩ := List.mem_map.mp marked
    exact ⟨found, by rw [whole]; exact List.mem_append_left _ inside, equal⟩
  · obtain ⟨found, inside, equal⟩ := List.mem_map.mp marked
    exact ⟨found, by rw [whole]; simp [inside], equal⟩

namespace KeepsIds

variable (right : KeepsIds source splice content (reattachIds (placedPage source splice) source))
include right

theorem read : ∀ heading ∈ levelTwo (withoutIdLines source), splice.keeps heading = true →
    ∃ found ∈ levelTwo (placedPage source splice),
      found.lineStart = splice.shift heading.lineStart := by
  intro heading member keeps
  rw [← (sameHeadings_withoutIdLines source).map_fst] at member
  obtain ⟨⟨other, id⟩, carries, rfl⟩ := List.mem_map.mp member
  obtain ⟨found, inside, place⟩ := right.kept other id carries keeps
  exact ⟨found, (List.of_mem_zip inside).1, place⟩

theorem own (fits : splice.Fits (withoutIdLines source)) : ∀ heading id,
    (heading, id) ∈ carried (withoutIdLines source) source → splice.keeps heading = true →
      ∀ found ∈ levelTwo (placedPage source splice),
        found.lineStart = splice.shift heading.lineStart →
          (idUnder (placedPage source splice) found).map Prod.fst =
            (ownTaker (offered (placedPage source splice)) (entryOf (heading, id))).2 := by
  intro heading id carries keeps found member place
  obtain ⟨other, inside, otherPlace⟩ := right.kept heading id carries keeps
  obtain ⟨third, thirdMember, marks⟩ := exists_marked fits right.read carries keeps
  have thirdPlace := place_of_mark marks
  obtain rfl := levelTwo_unique (List.of_mem_zip inside).1 member (otherPlace.trans place.symm)
  obtain rfl := levelTwo_unique thirdMember member (thirdPlace.trans place.symm)
  have taker := @ownTaker_of_handed _ _ _ (entryOf (heading, id)) (handed_writtenEntry inside)
    (congrArg trim (congrArg Prod.fst marks))
  exact congrArg Prod.snd taker

theorem written : (presentIds (placedPage source splice)).Nodup := by
  have outcome := right.distinct
  have given : (headingIds (reattachIds (placedPage source splice) source)).filterMap Prod.snd =
      ((headingIds (reattachIds (placedPage source splice) source)).map
        Prod.snd).filterMap id := by
    rw [List.filterMap_map]
    rfl
  rw [presentIds_eq, given, headingIds_reattachIds] at outcome
  rw [presentIds_eq]
  exact outcome.sublist (sublist_handOut _ _)

theorem spelled : ∀ found ∈ levelTwo (placedPage source splice), splice.brings found = true →
    ∀ id, (idUnder (placedPage source splice) found).map Prod.fst = some id →
      id ∈ spelledIds content ∨ Replaced source splice (trim found.text) id := by
  intro found inside brings id under
  rw [← (sameHeadings_reattachIds (placedPage source splice) source).map_fst] at inside
  obtain ⟨⟨other, got⟩, carries, rfl⟩ := List.mem_map.mp inside
  have taken := handed_writtenEntry carries
  rw [headingIds_reattachIds] at taken
  have shape : writtenEntry (placedPage source splice) other = (trim other.text, some id) := by
    rw [writtenEntry, under]
  rw [shape] at taken
  obtain rfl := handOut_keeps taken
  exact right.brought other id carries brings

/-- The headings behind the content were handed what those of the page carry. -/
theorem behind (whole : levelTwo (placedPage source splice) = front ++ (added ++ back))
    (frontMarks : front.map (mark 0) =
      (keptBefore source splice).map fun pair => splice.moved pair.1)
    (backMarks : back.map (mark 0) =
      (keptBehind source splice).map fun pair => splice.moved pair.1)
    {given : List (Option Text)}
    (handed : (headingIds (reattachIds (placedPage source splice) source)).map Prod.snd =
      (keptBefore source splice).map Prod.snd ++ given) :
    given.drop added.length = (laterEntries source splice).map Prod.snd := by
  obtain ⟨pairs, rest⟩ := carried_placed whole frontMarks handed
  have values : (back.zip (given.drop added.length)).map Prod.snd =
      (keptBehind source splice).map Prod.snd := by
    apply @map_eq_of_marks _ _ _ _ _ _ (fun pair => mark 0 pair.1)
      (fun pair => splice.moved pair.1)
    · rw [← backMarks]
      have firsts := congrArg (List.map (mark 0)) (map_fst_zip rest)
      rwa [List.map_map] at firsts
    · intro pair inside kept behind marks
      obtain ⟨carries, keeps⟩ := mem_keptBehind behind
      obtain ⟨found, handedTo, there⟩ := right.kept kept.1 kept.2 carries keeps
      have here : pair ∈ carried (placedPage source splice)
          (reattachIds (placedPage source splice) source) := by
        rw [pairs]
        exact List.mem_append_right _ (List.mem_append_right _ inside)
      have equal : pair = (found, kept.2) :=
        (sameHeadings_reattachIds (placedPage source splice) source).unique here handedTo
          ((place_of_mark marks).trans there.symm)
      rw [equal]
  rw [List.map_snd_zip (Nat.le_of_eq rest.symm)] at values
  rw [values, laterEntries, List.map_map]
  rfl

/-- Ids that stayed where they are were handed back so. -/
theorem handsBack (distinct : (presentIds source).Nodup)
    (fits : splice.Fits (withoutIdLines source)) : HandsBack source splice content := by
  obtain ⟨front, added, back, whole, frontMarks, backMarks, entries, -, -, handed⟩ :=
    exists_handed fits right.read (right.own fits)
  refine ⟨right.read, right.written, right.own fits, right.spelled, ?_⟩
  apply (handOut_later (silent_offered (placedPage source splice)) _ _ _
    (nodup_entries distinct fits)).mp
  rw [entries, List.length_map, ← entries]
  exact right.behind whole frontMarks backMarks handed

end KeepsIds

end Handed

variable {target : Target}

theorem mem_of_resolveSegments {headings : List HeadingSpan} :
    ∀ {segments : List (Option Nat × Text)} {start stop : Nat} {found : Option Target},
      (∀ other, found = some other → other ∈ headings.zipIdx) →
        resolveSegments headings segments start stop found = some target →
          target ∈ headings.zipIdx := by
  intro segments
  induction segments with
  | nil =>
      intro start stop found known resolved
      exact known target resolved
  | cons segment segments induction =>
      intro start stop found known resolved
      rw [resolveSegments] at resolved
      split at resolved
      · cases resolved
      · rename_i other matched
        refine induction ?_ resolved
        intro third same
        obtain rfl := Option.some.inj same
        exact List.mem_of_mem_take (List.mem_of_mem_drop (List.mem_of_find?_eq_some matched))

theorem mem_of_targetOf {source path : Text} (addressed : targetOf source path = .ok target) :
    target ∈ (headingSpans (withoutIdLines source)).zipIdx := by
  rw [targetOf, resolveSection] at addressed
  cases resolved : resolvePath (headingSpans (withoutIdLines source)) path with
  | some other =>
      simp only [resolved] at addressed
      obtain rfl := Except.ok.inj addressed
      rw [resolvePath, Option.or_eq_some_iff] at resolved
      rcases resolved with whole | ⟨-, segments⟩
      · exact List.mem_of_find?_eq_some whole
      · exact mem_of_resolveSegments (by intro other absent; cases absent) segments
  | none =>
      simp only [resolved] at addressed
      cases byId : sectionIndexById source (withoutIdLines source) path with
      | none =>
          simp only [byId] at addressed
          cases addressed
      | some other =>
          simp only [byId] at addressed
          obtain rfl := Except.ok.inj addressed
          rw [sectionIndexById, Option.bind_eq_some_iff] at byId
          obtain ⟨place, -, found⟩ := byId
          exact (List.mem_filter.mp (List.mem_of_getElem? found)).1

theorem applySectionOpAt_text (source : Text) (op : SectionOp) (target : Target) (content : Text) :
    (applySectionOpAt source op target content).text =
      (sectionSplice source (headingSpans source) target content op).apply source := by
  cases op <;> rfl

/-- A section edit keeps the section ids exactly when it hands them back. -/
theorem editSection_handsBack {source path content : Text} {op : SectionOp} {target : Target}
    {edit : SectionEdit} (distinct : (presentIds source).Nodup)
    (addressed : targetOf source path = .ok target)
    (edited : editSection source op path content = .ok edit) :
    KeepsIds source (editSplice source op target content) content edit.text ↔
      HandsBack source (editSplice source op target content) content := by
  have fits := sectionSplice_fits (mem_of_targetOf addressed) content op
  have text : edit.text = reattachIds (placedPage source (editSplice source op target content))
      source := by
    rw [editSection, addressed] at edited
    obtain rfl := Except.ok.inj edited
    exact congrArg (fun page => reattachIds page source) (applySectionOpAt_text _ _ _ _)
  rw [text]
  exact ⟨fun keeps => keeps.handsBack distinct fits, HandsBack.keepsIds distinct fits⟩

section Night

/-- A page of two sections, each with an id. -/
def nightPage : Text := "## A\n<!-- r:aaaa -->\n\ntext\n\n## B\n<!-- r:bbbb -->\n".toList

/-- What goes before the second section, under the same heading. -/
def nightContent : Text := "## B\n\nnew".toList

def nightTarget : Target := (⟨2, "B".toList, 12, 17⟩, 1)

/-- The answer: the new section has the id of the old one. -/
def nightEdit : SectionEdit where
  text := "## A\n<!-- r:aaaa -->\n\ntext\n\n## B\n<!-- r:bbbb -->\n\nnew\n\n## B\n".toList
  headingStripped := none
  placedAfterSection := false

end Night

end Crystalline.Reflection
