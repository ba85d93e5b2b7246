import Crystalline.Reflection.Reattach

/-!
# Where a section edit writes

A splice stands between two lines of a page.  The headings before it and those
behind it are read as before, as long as the walker stands outside fences when
it comes to the first of the latter.
-/

namespace Crystalline.Reflection

open Text

/-- A splice between lines of the body of a source. -/
structure Splice.Fits (splice : Splice) (source : Text) : Prop where
  filled : bodyLines source ≠ []
  body : bodyOffset source ≤ splice.start
  order : splice.start ≤ splice.stop
  inside : splice.stop ≤ source.length
  /-- It starts on a line of its own, or ends the last line of the source. -/
  opens : Terminated (source.take splice.start) ∨
    splice.start = source.length ∧ ∃ rest, splice.region = '\n' :: rest
  closes : ∃ front, splice.region = front ++ ['\n']

section Splices

variable {source content : Text} {target : Target}

section

variable (member : target ∈ (headingSpans source).zipIdx)
include member

theorem mem_headings : (headingSpans source)[target.2]? = some target.1 :=
  (List.mem_zipIdx_iff_getElem?).mp member

theorem startOf_bounds {index : Nat} (later : target.2 < index) :
    target.1.lineEnd ≤ startOf source (headingSpans source) index ∧
      startOf source (headingSpans source) index ≤ source.length ∧
      (Terminated (source.take (startOf source (headingSpans source) index)) ∨
        startOf source (headingSpans source) index = source.length) := by
  have here := mem_headings member
  obtain ⟨inside, same⟩ := List.getElem?_eq_some_iff.mp here
  have stands := headingSpans_stands source target.1 (List.mem_of_getElem? here)
  rw [startOf]
  cases found : (headingSpans source)[index]? with
  | none => exact ⟨stands.inside, Nat.le_refl _, .inr rfl⟩
  | some other =>
      obtain ⟨bound, there⟩ := List.getElem?_eq_some_iff.mp found
      have standing := headingSpans_stands source other (List.mem_of_getElem? found)
      have ordered := (headingSpansFrom_order none (bodyOffset source) (bodyLines source)).2
      have apart := List.pairwise_iff_getElem.mp ordered target.2 index inside bound later
      have apart : (headingSpans source)[target.2].lineEnd ≤
          (headingSpans source)[index].lineStart := apart
      rw [same, there] at apart
      have order := standing.order
      have ending := standing.inside
      exact ⟨apart, by simp only [Option.map_some, Option.getD_some]; omega, .inl standing.starts⟩

end

theorem replaceRegion_shape (body : Text) (last : Bool) :
    (∃ rest, replaceRegion body last = '\n' :: rest) ∧
      ∃ front, replaceRegion body last = front ++ ['\n'] := by
  rw [replaceRegion]
  split
  · exact ⟨⟨[], rfl⟩, ⟨[], rfl⟩⟩
  · split
    · exact ⟨⟨_, rfl⟩, ⟨'\n' :: body, rfl⟩⟩
    · exact ⟨⟨_, rfl⟩, ⟨'\n' :: (body ++ ['\n']), by simp⟩⟩

theorem replaceSplice_region (source : Text) (headings : List HeadingSpan) (target : Target)
    (content : Text) (includeSubsections : Bool) :
    (∃ rest, (replaceSplice source headings target content includeSubsections).region =
      '\n' :: rest) ∧
      ∃ front, (replaceSplice source headings target content includeSubsections).region =
        front ++ ['\n'] := by
  dsimp only [replaceSplice]
  exact replaceRegion_shape _ _

theorem exists_snoc_lineFeed (before : Text) {tail : Text} (feeds : tail = [] ∨ tail = ['\n']) :
    ∃ front, before ++ '\n' :: tail = front ++ ['\n'] := by
  rcases feeds with rfl | rfl
  · exact ⟨before, rfl⟩
  · exact ⟨before ++ ['\n'], by simp⟩

theorem lineFeed_or_nil (condition : Prop) [Decidable condition] :
    (if condition then ['\n'] else []) = [] ∨ (if condition then ['\n'] else []) = ['\n'] := by
  split
  · exact .inr rfl
  · exact .inl rfl

/-- Every edit fits the source it is made in. -/
theorem sectionSplice_fits (member : target ∈ (headingSpans source).zipIdx) (content : Text)
    (op : SectionOp) :
    (sectionSplice source (headingSpans source) target content op).Fits source := by
  have here := List.mem_of_getElem? (mem_headings member)
  have stands := headingSpans_stands source target.1 here
  have order := stands.order
  have inside := stands.inside
  have body := stands.body
  have filled : bodyLines source ≠ [] := by
    intro empty
    rw [headingSpans, ← bodyLines, empty] at here
    cases here
  have later : target.2 < sectionEndIndex (headingSpans source) target := by
    rw [sectionEndIndex]
    omega
  cases op with
  | replace includeSubsections =>
      obtain ⟨index, behind, stop⟩ : ∃ index, target.2 < index ∧
          (replaceSplice source (headingSpans source) target content includeSubsections).stop =
            startOf source (headingSpans source) index := by
        rw [replaceSplice]
        split
        · exact ⟨_, later, rfl⟩
        · split
          · exact ⟨_, Nat.lt_succ_self _, rfl⟩
          · exact ⟨_, later, rfl⟩
      obtain ⟨bound, ending, -⟩ := startOf_bounds member behind
      rw [← stop] at bound ending
      obtain ⟨opens, closes⟩ := replaceSplice_region source (headingSpans source) target
        content includeSubsections
      refine ⟨filled, ?_, bound, ending, ?_, closes⟩
      · change bodyOffset source ≤ target.1.lineEnd
        omega
      · exact stands.ends.imp_right fun last => ⟨last, opens⟩
  | insertBefore =>
      refine ⟨filled, body, Nat.le_refl _, ?_, .inl stands.starts, ?_⟩
      · change target.1.lineStart ≤ source.length
        omega
      · exact ⟨trimNewlines content ++ ['\n'], by simp [sectionSplice, insertBeforeSplice]⟩
  | insertAfter =>
      rw [sectionSplice, insertAfterSplice]
      split
      · obtain ⟨bound, ending, ended⟩ := startOf_bounds member later
        refine ⟨filled, ?_, Nat.le_refl _, ending, ?_, ?_⟩
        · exact Nat.le_trans (by omega) bound
        · rcases ended with terminated | last
          · exact .inl terminated
          · dsimp only
            rw [last, List.take_length]
            split
            next twice =>
              obtain ⟨front, whole⟩ := endsWith_iff.mp twice
              have shape : front ++ ['\n', '\n'] = (front ++ ['\n']) ++ ['\n'] := by simp
              rw [← whole, shape]
              exact .inl (terminated_snoc _)
            · split
              next once =>
                obtain ⟨front, whole⟩ := endsWith_iff.mp once
                rw [← whole]
                exact .inl (terminated_snoc front)
              · exact .inr ⟨rfl, _, rfl⟩
        · obtain ⟨front, ends⟩ := exists_snoc_lineFeed
            (trimNewlines (stripRepeatedHeading target.1 content).1)
            (lineFeed_or_nil (startOf source (headingSpans source)
              (sectionEndIndex (headingSpans source) target) < source.length))
          dsimp only
          rw [ends]
          exact ⟨_, (List.append_assoc _ _ _).symm⟩
      · refine ⟨filled, ?_, Nat.le_refl _, inside, ?_, ?_⟩
        · change bodyOffset source ≤ target.1.lineEnd
          omega
        · exact stands.ends.imp_right fun last => ⟨last, _, rfl⟩
        · exact exists_snoc_lineFeed
            ('\n' :: trimNewlines (stripRepeatedHeading target.1 content).1) (lineFeed_or_nil _)

end Splices

section Sorted

variable {lines : List Text}

theorem levelTwoFrom_sorted (nonempty : ∀ raw ∈ lines, raw ≠ []) (fence : FenceTracker)
    (offset : Nat) :
    (levelTwoFrom fence offset lines).Pairwise fun earlier later =>
      earlier.lineStart < later.lineStart := by
  induction lines generalizing fence offset with
  | nil => exact List.Pairwise.nil
  | cons raw lines induction =>
      have tail := fun other member => nonempty other (List.mem_cons_of_mem raw member)
      have later := induction tail (nextFence fence raw) (offset + raw.length)
      have long := List.length_pos_of_ne_nil (nonempty raw List.mem_cons_self)
      rw [levelTwoFrom_cons]
      cases twoHeading fence raw with
      | none => exact later
      | some text =>
          refine List.Pairwise.cons ?_ later
          intro heading member
          have bounds := levelTwoFrom_bounds tail _ _ heading member
          dsimp only
          omega

theorem levelTwo_sorted (source : Text) :
    (levelTwo source).Pairwise fun earlier later => earlier.lineStart < later.lineStart :=
  levelTwoFrom_sorted (fun _ member => ne_nil_of_cut member) none _

theorem levelTwo_unique {source : Text} {first second : HeadingSpan}
    (firstMember : first ∈ levelTwo source) (secondMember : second ∈ levelTwo source)
    (place : first.lineStart = second.lineStart) : first = second := by
  have distinct : ((levelTwo source).map HeadingSpan.lineStart).Nodup := by
    rw [List.Nodup, List.pairwise_map]
    exact (levelTwo_sorted source).imp fun before equal => by omega
  exact List.inj_on_of_nodup_map distinct firstMember secondMember place

theorem levelTwo_bounds (source : Text) :
    ∀ heading ∈ levelTwo source, bodyOffset source ≤ heading.lineStart ∧
      heading.lineStart < source.length := by
  intro heading member
  have bounds := levelTwoFrom_bounds (fun _ member => ne_nil_of_cut member) none
    (bodyOffset source) heading member
  rw [flatten_splitInclusive, List.length_drop] at bounds
  omega

/-- Items in order are those before an offset and then those behind it. -/
theorem split_sorted {Item : Type*} {key : Item → Nat} {items : List Item}
    (sorted : items.Pairwise fun earlier later => key earlier < key later) (offset : Nat) :
    items = items.filter (fun item => key item < offset) ++
      items.filter (fun item => offset ≤ key item) := by
  induction items with
  | nil => rfl
  | cons item items induction =>
      obtain ⟨before, sorted⟩ := List.pairwise_cons.mp sorted
      by_cases early : key item < offset
      · rw [List.filter_cons_of_pos (by simpa using early),
          List.filter_cons_of_neg (by simp; omega), List.cons_append]
        exact congrArg _ (induction sorted)
      · have none : items.filter (fun item => key item < offset) = [] := by
          rw [List.filter_eq_nil_iff]
          intro other member
          have later := before other member
          simp
          omega
        have all : items.filter (fun item => offset ≤ key item) = items := by
          rw [List.filter_eq_self]
          intro other member
          have later := before other member
          simp
          omega
        rw [List.filter_cons_of_neg (by simpa using early),
          List.filter_cons_of_pos (by simp; omega), none, all]
        rfl

end Sorted

section Reading

variable {before after : Text}

/-- What is read of the first part of a body: a line that is ended by what
follows is the heading it was. -/
theorem levelTwoFrom_front
    (opens : Terminated before ∨ after = [] ∨ ∃ rest, after = '\n' :: rest)
    (fence : FenceTracker) (offset : Nat) :
    ∃ front rest, levelTwoFrom fence offset (splitInclusive (before ++ after)) = front ++ rest ∧
      front.map (mark 0) = (levelTwoFrom fence offset (splitInclusive before)).map (mark 0) ∧
      (∀ heading ∈ front, heading.lineStart < offset + before.length) ∧
      ∀ heading ∈ rest, offset + before.length ≤ heading.lineStart := by
  have bounds : ∀ fence offset text, ∀ heading ∈
      levelTwoFrom fence offset (splitInclusive text),
      offset ≤ heading.lineStart ∧ heading.lineStart < offset + text.length := by
    intro fence offset text heading member
    have inside := levelTwoFrom_bounds (fun _ member => ne_nil_of_cut member) fence offset
      heading member
    rwa [flatten_splitInclusive] at inside
  by_cases terminated : Terminated before
  · refine ⟨_, _, levelTwoFrom_text terminated fence offset after, rfl, ?_, ?_⟩
    · exact fun heading member => (bounds _ _ _ heading member).2
    · exact fun heading member => (bounds _ _ _ heading member).1
  · rcases opens.resolve_left terminated with rfl | ⟨rest, rfl⟩
    · refine ⟨_, [], by rw [List.append_nil, List.append_nil], rfl, ?_, by simp⟩
      exact fun heading member => (bounds _ _ _ heading member).2
    · obtain ⟨pieces, raw, areLines, absent, rfl⟩ := exists_lines_append before
      have nonempty : raw ≠ [] := by
        rintro rfl
        apply terminated
        rw [List.append_nil]
        exact terminated_flatten areLines
      have whole : pieces.flatten ++ raw ++ '\n' :: rest =
          pieces.flatten ++ ((raw ++ ['\n']) ++ rest) := by simp
      have same : bareLine (raw ++ ['\n']) = bareLine raw := by
        rw [bareLine_newline, bareLine_of_not_mem absent]
      have pieced := splitInclusive_eq_of_lines areLines absent
      rw [if_neg nonempty] at pieced
      rw [whole, splitInclusive_append (terminated_flatten areLines),
        splitInclusive_flatten_of_lines areLines,
        splitInclusive_line_append (isLine_snoc absent), levelTwoFrom_append, levelTwoFrom_cons,
        twoHeading_congr same, ← List.append_assoc]
      refine ⟨_, _, rfl, ?_, ?_, ?_⟩
      · rw [pieced, levelTwoFrom_append, levelTwoFrom_cons, List.map_append, List.map_append,
          List.map_append]
        congr 1
        cases twoHeading (fenceAfter fence pieces) raw with
        | none => rfl
        | some text => rfl
      · have long := List.length_pos_of_ne_nil nonempty
        intro heading member
        rw [List.length_append]
        rcases List.mem_append.mp member with member | member
        · have inside := levelTwoFrom_bounds (fun line member => (areLines line member).ne_nil)
            fence offset heading member
          omega
        · obtain ⟨text, -, rfl⟩ := Option.map_eq_some_iff.mp (Option.mem_toList.mp member)
          dsimp only
          omega
      · intro heading member
        have inside := (bounds _ _ _ heading member).1
        rw [List.length_append, List.length_singleton] at inside
        rw [List.length_append]
        omega

/-- What is read of a body from a heading on does not depend on what stands
before it. -/
theorem levelTwo_behind (terminated : Terminated before)
    (inside : bodyOffset (before ++ after) ≤ before.length)
    (here : ∃ heading ∈ levelTwo (before ++ after), heading.lineStart = before.length) :
    (levelTwo (before ++ after)).filter (fun heading => before.length ≤ heading.lineStart) =
      levelTwoFrom none before.length (splitInclusive after) := by
  have front := terminated_drop terminated (bodyOffset (before ++ after))
  have length : bodyOffset (before ++ after) +
      (before.drop (bodyOffset (before ++ after))).length = before.length := by
    rw [List.length_drop]
    omega
  have body := levelTwoFrom_text front none (bodyOffset (before ++ after)) after
  rw [← List.drop_append_of_le_length inside, length] at body
  have whole : levelTwo (before ++ after) = _ := body
  have early : ∀ heading ∈ levelTwoFrom none (bodyOffset (before ++ after))
      (splitInclusive (before.drop (bodyOffset (before ++ after)))),
      heading.lineStart < before.length := by
    intro heading member
    have bounds := levelTwoFrom_bounds (fun _ member => ne_nil_of_cut member) none
      (bodyOffset (before ++ after)) heading member
    rw [flatten_splitInclusive, length] at bounds
    exact bounds.2
  obtain ⟨heading, member, start⟩ := here
  rw [whole] at member
  rcases List.mem_append.mp member with member | member
  · have bound := early heading member
    omega
  · have closed := closed_of_heading member start
    rw [closed] at whole
    rw [whole, List.filter_append, List.filter_eq_nil_iff.mpr, List.filter_eq_self.mpr]
    · rfl
    · intro other found
      have bounds := levelTwoFrom_bounds (fun _ member => ne_nil_of_cut member) none
        before.length other found
      simpa using bounds.1
    · intro other found
      have bound := early other found
      simpa using bound

end Reading

/-- Where a place outside the splice is afterwards. -/
def Splice.shift (splice : Splice) (offset : Nat) : Nat :=
  if offset < splice.start then offset
  else splice.start + splice.region.length + (offset - splice.stop)

/-- A heading the edit keeps. -/
def Splice.keeps (splice : Splice) (heading : HeadingSpan) : Bool :=
  heading.lineStart < splice.start || splice.stop ≤ heading.lineStart

/-- A heading on a line the edit brought. -/
def Splice.brings (splice : Splice) (heading : HeadingSpan) : Bool :=
  splice.start ≤ heading.lineStart &&
    heading.lineStart < splice.start + splice.region.length

section Placed

variable {splice : Splice} {source : Text}

theorem length_take_start (fits : splice.Fits source) :
    (source.take splice.start).length = splice.start := by
  have order := fits.order
  have inside := fits.inside
  rw [List.length_take]
  omega

/-- Under frontmatter the body stays where it is. -/
theorem bodyOffset_apply_framed {parts : FrontmatterParts} (wellCut : parts.WellCut)
    (fits : splice.Fits parts.source) :
    bodyOffset (splice.apply parts.source) = bodyOffset parts.source := by
  have start := fits.body
  have head := bodyOffset_source wellCut
  have ends : IsLine parts.closeLine := by
    rcases wellCut.closeLine_ends with isLine | ⟨-, -, empty⟩
    · exact isLine
    · have filled := fits.filled
      rw [bodyLines, head, FrontmatterParts.source, List.drop_left, empty] at filled
      exact absurd rfl filled
  have cut : splice.apply parts.source =
      parts.openLine ++ parts.yaml ++ parts.closeLine ++
        ((parts.source.take splice.start).drop (bodyOffset parts.source) ++
          (splice.region ++ parts.source.drop splice.stop)) := by
    have begins : (parts.source.take splice.start).take (bodyOffset parts.source) =
        parts.openLine ++ parts.yaml ++ parts.closeLine := by
      rw [List.take_take, Nat.min_eq_left start, head, FrontmatterParts.source, List.take_left]
    rw [Splice.apply, List.append_assoc, ← begins,
      ← List.append_assoc _ _ (splice.region ++ _), List.take_append_drop]
  have again : ({ parts with body :=
      (parts.source.take splice.start).drop (bodyOffset parts.source) ++
        (splice.region ++ parts.source.drop splice.stop) } : FrontmatterParts).WellCut :=
    ⟨wellCut.openLine_isLine, wellCut.openLine_delimits, wellCut.yaml_terminated,
      wellCut.yaml_undelimited, wellCut.closeLine_delimits, .inl ends⟩
  have same := bodyOffset_source again
  rw [FrontmatterParts.source] at same
  rw [cut, same, head]

/-- The body stays where it is, unless the page had no frontmatter and the edit
closes one. -/
theorem bodyOffset_apply (fits : splice.Fits source) :
    bodyOffset (splice.apply source) = bodyOffset source ∨
      splice.start ≤ bodyOffset (splice.apply source) := by
  have front := length_take_start fits
  have start := fits.body
  have apply : splice.apply source =
      source.take splice.start ++ (splice.region ++ source.drop splice.stop) := by
    rw [Splice.apply, List.append_assoc]
  rcases bodyOffset_cases source with ⟨absent, offset⟩ | ⟨parts, wellCut, rfl⟩
  · rcases bodyOffset_cases (splice.apply source) with ⟨-, same⟩ | ⟨parts, wellCut, whole⟩
    · exact .inl (by rw [same, offset])
    · have head := bodyOffset_source wellCut
      rw [whole] at head
      generalize bodyOffset (splice.apply source) = next at head ⊢
      rw [apply] at whole
      by_cases early : next < splice.start
      · have begins : parts.openLine ++ parts.yaml ++ parts.closeLine = source.take next := by
          have taken := congrArg (List.take next) whole
          rwa [List.take_append_of_le_length (by omega), List.take_take,
            Nat.min_eq_left (by omega), FrontmatterParts.source, head, List.take_left,
            ← head] at taken
        have ends : IsLine parts.closeLine := by
          rcases wellCut.closeLine_ends with isLine | ⟨-, -, empty⟩
          · exact isLine
          · have lengths := congrArg List.length whole
            rw [FrontmatterParts.source, empty, List.append_nil, ← head,
              List.length_append, front] at lengths
            omega
        have again : ({ parts with body := source.drop next } : FrontmatterParts).WellCut :=
          ⟨wellCut.openLine_isLine, wellCut.openLine_delimits, wellCut.yaml_terminated,
            wellCut.yaml_undelimited, wellCut.closeLine_delimits, .inl ends⟩
        have located := again.locate_source
        rw [FrontmatterParts.source, begins, List.take_append_drop, absent] at located
        cases located
      · exact .inr (by omega)
  · exact .inl (bodyOffset_apply_framed wellCut fits)

theorem shift_before {offset : Nat} (early : offset < splice.start) :
    splice.shift offset = offset := if_pos early

section

variable (fits : splice.Fits source)
include fits

theorem shift_behind {offset : Nat} (late : splice.stop ≤ offset) :
    splice.shift offset = splice.start + splice.region.length + (offset - splice.stop) := by
  have order := fits.order
  exact if_neg (by omega)

/-- The headings before the splice are read as they were. -/
theorem levelTwo_front (read : ∀ heading ∈ levelTwo source, heading.lineStart < splice.start →
      ∃ found ∈ levelTwo (splice.apply source), found.lineStart = heading.lineStart) :
    ((levelTwo (splice.apply source)).filter fun heading =>
        heading.lineStart < splice.start).map (mark 0) =
      ((levelTwo source).filter fun heading =>
        heading.lineStart < splice.start).map (mark 0) := by
  have front := length_take_start fits
  have start := fits.body
  rcases bodyOffset_apply fits with same | behind
  · have length : bodyOffset source +
        ((source.take splice.start).drop (bodyOffset source)).length = splice.start := by
      rw [List.length_drop, front]
      omega
    -- Both bodies begin with the lines up to the splice.
    have reading : ∀ after, (Terminated (source.take splice.start) ∨ after = [] ∨
        ∃ rest, after = '\n' :: rest) →
        (((levelTwoFrom none (bodyOffset source) (splitInclusive
          ((source.take splice.start).drop (bodyOffset source) ++ after))).filter
            fun heading => heading.lineStart < splice.start).map (mark 0)) =
          (levelTwoFrom none (bodyOffset source) (splitInclusive
            ((source.take splice.start).drop (bodyOffset source)))).map (mark 0) := by
      intro after opens
      obtain ⟨first, rest, whole, marks, early, late⟩ :=
        levelTwoFrom_front (opens.imp_left fun ended => terminated_drop ended _) none
          (bodyOffset source)
      rw [length] at early late
      rw [whole, List.filter_append, List.filter_eq_self.mpr, List.filter_eq_nil_iff.mpr,
        List.append_nil, marks]
      · intro heading member
        have bound := late heading member
        simpa using bound
      · intro heading member
        have bound := early heading member
        simpa using bound
    have placed := reading (splice.region ++ source.drop splice.stop)
      (fits.opens.imp_right fun ends => .inr (by
        obtain ⟨-, rest, shape⟩ := ends
        exact ⟨_, by rw [shape]; rfl⟩))
    have kept := reading (source.drop splice.start)
      (fits.opens.imp_right fun ends => .inl (by rw [ends.1, List.drop_length]))
    have body : (splice.apply source).drop (bodyOffset source) =
        (source.take splice.start).drop (bodyOffset source) ++
          (splice.region ++ source.drop splice.stop) := by
      rw [Splice.apply, List.append_assoc, List.drop_append_of_le_length (by omega)]
    have whole : source.drop (bodyOffset source) =
        (source.take splice.start).drop (bodyOffset source) ++ source.drop splice.start := by
      rw [← List.drop_append_of_le_length (by omega), List.take_append_drop]
    rw [← body] at placed
    rw [← whole] at kept
    rw [levelTwo_eq, levelTwo_eq, bodyLines, bodyLines, same, placed, kept]
  · have none : (levelTwo (splice.apply source)).filter
        (fun heading => heading.lineStart < splice.start) = [] := by
      rw [List.filter_eq_nil_iff]
      intro heading member
      have bounds := levelTwo_bounds (splice.apply source) heading member
      simp
      omega
    have gone : (levelTwo source).filter
        (fun heading => heading.lineStart < splice.start) = [] := by
      rw [List.filter_eq_nil_iff]
      intro heading member early
      obtain ⟨found, inside, same⟩ := read heading member (by simpa using early)
      have bounds := levelTwo_bounds (splice.apply source) found inside
      simp at early
      omega
    rw [none, gone]

/-- The headings from a kept one behind the splice on are read as they were. -/
theorem levelTwo_back {first : HeadingSpan} (member : first ∈ levelTwo source)
    (behind : splice.stop ≤ first.lineStart)
    (least : ∀ heading ∈ levelTwo source, splice.stop ≤ heading.lineStart →
      first.lineStart ≤ heading.lineStart) (read : ∃ found ∈ levelTwo (splice.apply source),
      found.lineStart = splice.shift first.lineStart) :
    ((levelTwo (splice.apply source)).filter fun heading =>
        splice.shift first.lineStart ≤ heading.lineStart).map (mark 0) =
      ((levelTwo source).filter fun heading =>
        splice.stop ≤ heading.lineStart).map fun heading =>
          (heading.text, splice.shift heading.lineStart) := by
  have order := fits.order
  have front := length_take_start fits
  have stands := headingSpans_stands source first (List.mem_of_mem_filter member)
  have ended := stands.starts
  have inside := stands.body
  have length : (source.take first.lineStart).length = first.lineStart := by
    have bounds := levelTwo_bounds source first member
    rw [List.length_take]
    omega
  have shifted := shift_behind fits behind
  -- The page up to the kept heading, with the region in it.
  let before := source.take splice.start ++ splice.region ++
    (source.take first.lineStart).drop splice.stop
  have placedLength : before.length = splice.shift first.lineStart := by
    rw [shifted, List.length_append, List.length_append, front, List.length_drop, length]
  have placed : splice.apply source = before ++ source.drop first.lineStart := by
    have rest : source.drop splice.stop =
        (source.take first.lineStart).drop splice.stop ++ source.drop first.lineStart := by
      rw [← List.drop_append_of_le_length (by omega), List.take_append_drop]
    rw [Splice.apply, rest, List.append_assoc, List.append_assoc, List.append_assoc]
  have terminated : Terminated before := by
    obtain ⟨region, closes⟩ := fits.closes
    have opening : Terminated (source.take splice.start ++ splice.region) := by
      rw [closes, ← List.append_assoc]
      exact terminated_snoc _
    exact opening.append (terminated_drop ended _)
  have own := @levelTwo_behind (source.take first.lineStart) (source.drop first.lineStart) ended
  rw [List.take_append_drop, length] at own
  have unmoved := own inside ⟨first, member, rfl⟩
  have other := @levelTwo_behind before (source.drop first.lineStart) terminated
  rw [← placed, placedLength] at other
  obtain ⟨found, foundMember, foundStart⟩ := read
  have bound := (levelTwo_bounds _ found foundMember).1
  have moved := other (by omega) ⟨found, foundMember, foundStart⟩
  have same : (levelTwo source).filter (fun heading => splice.stop ≤ heading.lineStart) =
      (levelTwo source).filter fun heading => first.lineStart ≤ heading.lineStart := by
    apply List.filter_congr
    intro heading inside
    have minimal := least heading inside
    simp only [decide_eq_decide]
    omega
  have base := levelTwoFrom_moved none 0 (splice.shift first.lineStart)
    (splitInclusive (source.drop first.lineStart))
  have marks := levelTwoFrom_moved none 0 first.lineStart
    (splitInclusive (source.drop first.lineStart))
  rw [Nat.add_zero] at base marks
  rw [moved, base, same, unmoved]
  have through := congrArg (List.map fun pair : Text × Nat => (pair.1, splice.shift pair.2)) marks
  rw [List.map_map, List.map_map] at through
  have left : (levelTwoFrom none first.lineStart (splitInclusive (source.drop first.lineStart))).map
      (fun heading => (heading.text, splice.shift heading.lineStart)) =
        (levelTwoFrom none first.lineStart
          (splitInclusive (source.drop first.lineStart))).map
            ((fun pair : Text × Nat => (pair.1, splice.shift pair.2)) ∘ mark 0) := by
    apply List.map_congr_left
    intro heading _
    simp [mark]
  rw [left, through]
  apply List.map_congr_left
  intro heading _
  have late : splice.stop ≤ first.lineStart + heading.lineStart := by omega
  simp only [mark, Function.comp, shift_behind fits late, shifted, Prod.mk.injEq, true_and]
  omega

end

/-- A heading as it stands after the edit. -/
def Splice.moved (splice : Splice) (heading : HeadingSpan) : Text × Nat :=
  (heading.text, splice.shift heading.lineStart)

/-- The first heading behind the splice. -/
theorem least_behind {stop : Nat} {next : HeadingSpan} {rest : List HeadingSpan}
    (later : ((levelTwo source).filter fun heading => stop ≤ heading.lineStart) = next :: rest) :
    next ∈ levelTwo source ∧ stop ≤ next.lineStart ∧
      ∀ heading ∈ levelTwo source, stop ≤ heading.lineStart →
        next.lineStart ≤ heading.lineStart := by
  have member : next ∈ (levelTwo source).filter fun heading => stop ≤ heading.lineStart := by
    rw [later]
    exact List.mem_cons_self
  obtain ⟨inside, behind⟩ := List.mem_filter.mp member
  refine ⟨inside, by simpa using behind, ?_⟩
  intro heading found late
  have filtered : heading ∈ next :: rest := by
    rw [← later]
    exact List.mem_filter.mpr ⟨found, by simpa using late⟩
  have ordered := (levelTwo_sorted source).filter fun heading => stop ≤ heading.lineStart
  rw [later] at ordered
  rcases List.mem_cons.mp filtered with rfl | filtered
  · exact Nat.le_refl _
  · exact Nat.le_of_lt ((List.pairwise_cons.mp ordered).1 heading filtered)

/-- A heading between the kept ones stands at the place of none of them. -/
theorem ne_shift_of_between {heading : HeadingSpan} (late : splice.start ≤ heading.lineStart)
    (before : ∀ kept ∈ levelTwo source, splice.stop ≤ kept.lineStart →
      heading.lineStart < splice.shift kept.lineStart) :
    ∀ kept ∈ levelTwo source, splice.keeps kept = true →
      heading.lineStart ≠ splice.shift kept.lineStart := by
  intro kept found keeps
  rw [Splice.keeps, Bool.or_eq_true] at keeps
  rcases keeps with keeps | keeps
  · have early : kept.lineStart < splice.start := by simpa using keeps
    rw [shift_before early]
    omega
  · have bound := before kept found (by simpa using keeps)
    omega

/-- The headings after an edit that leaves every kept heading one: the kept ones
before the splice, added ones, and the kept ones behind it. -/
theorem levelTwo_apply (fits : splice.Fits source)
    (read : ∀ heading ∈ levelTwo source, splice.keeps heading = true →
      ∃ found ∈ levelTwo (splice.apply source),
        found.lineStart = splice.shift heading.lineStart) :
    ∃ front added back, levelTwo (splice.apply source) = front ++ (added ++ back) ∧
      front.map (mark 0) = ((levelTwo source).filter fun heading =>
        heading.lineStart < splice.start).map splice.moved ∧
      back.map (mark 0) = ((levelTwo source).filter fun heading =>
        splice.stop ≤ heading.lineStart).map splice.moved ∧
      (∀ heading ∈ front, heading.lineStart < splice.start) ∧
      (∀ heading ∈ added, splice.start ≤ heading.lineStart ∧
        ∀ kept ∈ levelTwo source, splice.keeps kept = true →
          heading.lineStart ≠ splice.shift kept.lineStart) ∧
      ∀ heading ∈ back, splice.start + splice.region.length ≤ heading.lineStart := by
  have sorted := levelTwo_sorted (splice.apply source)
  have front := levelTwo_front fits (by
    intro heading member early
    obtain ⟨found, inside, same⟩ := read heading member (by simp [Splice.keeps, early])
    exact ⟨found, inside, same.trans (shift_before early)⟩)
  have unmoved : ((levelTwo source).filter fun heading =>
      heading.lineStart < splice.start).map (mark 0) =
        ((levelTwo source).filter fun heading =>
          heading.lineStart < splice.start).map splice.moved := by
    apply List.map_congr_left
    intro heading member
    have early : heading.lineStart < splice.start := by simpa using (List.mem_filter.mp member).2
    simp [mark, Splice.moved, shift_before early]
  have first := split_sorted sorted splice.start
  have early : ∀ heading ∈ (levelTwo (splice.apply source)).filter
      (fun heading => heading.lineStart < splice.start), heading.lineStart < splice.start :=
    fun heading member => by simpa using (List.mem_filter.mp member).2
  cases later : (levelTwo source).filter fun heading => splice.stop ≤ heading.lineStart with
  | nil =>
      have whole := first
      rw [← List.append_nil ((levelTwo (splice.apply source)).filter fun heading =>
        splice.start ≤ heading.lineStart)] at whole
      refine ⟨_, _, [], whole, front.trans unmoved, rfl, early, ?_, by simp⟩
      intro heading member
      have late : splice.start ≤ heading.lineStart := by
        simpa using (List.mem_filter.mp member).2
      refine ⟨late, ne_shift_of_between late ?_⟩
      intro kept inside behind
      rw [List.filter_eq_nil_iff] at later
      exact absurd (decide_eq_true behind) (later kept inside)
  | cons next rest =>
      obtain ⟨inside, behind, least⟩ := least_behind later
      have back := levelTwo_back fits inside behind least
        (read next inside (by simp [Splice.keeps, behind]))
      have shifted := shift_behind fits behind
      have second := split_sorted (sorted.filter fun heading =>
        splice.start ≤ heading.lineStart) (splice.shift next.lineStart)
      have whole : ((levelTwo (splice.apply source)).filter fun heading =>
          splice.start ≤ heading.lineStart).filter
            (fun heading => splice.shift next.lineStart ≤ heading.lineStart) =
          (levelTwo (splice.apply source)).filter fun heading =>
            splice.shift next.lineStart ≤ heading.lineStart := by
        rw [List.filter_filter]
        apply List.filter_congr
        intro heading _
        rw [← Bool.decide_and, decide_eq_decide]
        omega
      rw [whole] at second
      rw [second] at first
      refine ⟨_, _, _, first, front.trans unmoved, ?_, early, ?_, ?_⟩
      · rw [← later]
        exact back
      · intro heading member
        obtain ⟨late, before⟩ := List.mem_filter.mp member
        have late : splice.start ≤ heading.lineStart := by
          simpa using (List.mem_filter.mp late).2
        have before : heading.lineStart < splice.shift next.lineStart := by simpa using before
        refine ⟨late, ne_shift_of_between late ?_⟩
        intro kept found behind
        have minimal := least kept found behind
        rw [shift_behind fits behind]
        omega
      · intro heading member
        have late : splice.shift next.lineStart ≤ heading.lineStart := by
          simpa using (List.mem_filter.mp member).2
        omega

end Placed

end Crystalline.Reflection
