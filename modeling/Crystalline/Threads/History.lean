import Crystalline.Threads.Append

/-!
# Histories that only grow

A thread file built by opening threads and appending entries reads back as the
threads with all their entries, and an append leaves what was there.  The run
invariant is `Stands`: the file, converted, is the title and one slot for each
thread.
-/

namespace Crystalline.Threads

open Text

/-- A thread as the file gives it back. -/
def Thread.asRead (thread : Thread) : Thread :=
  { thread with
    anchor := { thread.anchor with occurrence := max thread.anchor.occurrence 1 }
    entries := thread.entries.map Entry.asRead }

/-- The status a thread has after an entry of the kind. -/
def EntryKind.leaves : EntryKind → ThreadStatus → ThreadStatus
  | comment, status => status
  | resolve, _ => .resolved
  | reopen, _ => .opened

/-- A thread with one more entry. -/
def Thread.record (thread : Thread) (entry : Entry) : Thread :=
  { thread with
    status := entry.kind.leaves thread.status
    entries := thread.entries ++ [entry] }

/-- The files built from the empty one, with the threads each should hold. -/
inductive Built (yaml : MetaYaml) : Text → List Thread → Prop where
  | empty : Built yaml [] []
  | opened {file : Text} {threads : List Thread} {thread : Thread} {fields : Text}
      (built : Built yaml file threads)
      (fresh : thread.id ∉ threads.map Thread.id)
      (isId : IsThreadId thread.id)
      (stamps : ∀ entry ∈ thread.entries, IsStamp entry.writtenAt)
      (printed : Printed yaml thread.anchor fields) :
      Built yaml (openThread yaml file thread) (threads ++ [thread])
  | appended {file result id : Text} {threads : List Thread} {entry : Entry}
      (built : Built yaml file threads)
      (stamp : IsStamp entry.writtenAt)
      (done : appendEntry yaml file id entry = .ok result) :
      Built yaml result (threads.map fun thread =>
        if thread.id = id then thread.record entry else thread)

section Invariant

variable {yaml : MetaYaml}

/-- The file, converted, is the title and the slots. -/
structure Stands (yaml : MetaYaml) (file : Text) (slots : List (Slot yaml)) : Prop where
  nodup : (slots.map fun slot => slot.thread.id).Nodup
  empty : slots = [] → file = []
  converted : slots ≠ [] → toLf file = titleText ++ joined (slots.map Slot.stretch)
  notBlank : slots ≠ [] → trim file ≠ []

theorem wellCut_slots (slots : List (Slot yaml)) :
    ∀ stretch ∈ slots.map Slot.stretch, stretch.WellCut := by
  intro stretch member
  obtain ⟨slot, -, rfl⟩ := List.mem_map.mp member
  exact slot.stretch_wellCut

theorem toLf_joined (slots : List (Slot yaml)) :
    toLf (joined (slots.map Slot.stretch)) = joined (slots.map Slot.stretch) := by
  induction slots with
  | nil => rfl
  | cons slot slots ih =>
      rw [List.map_cons, joined_cons, toLf_append slot.stretch_wellCut.text_ended,
        slot.toLf_stretch, ih]

theorem toLf_titleText : toLf titleText = titleText := toLf_of_no_return (by decide)

variable {thread : Thread} {fields : Text} {file : Text} {slots : List (Slot yaml)} {entry : Entry}

theorem renderThread_eq (printed : Printed yaml thread.anchor fields) :
    renderThread yaml thread =
      (stretchOf thread.id fields thread.status
        (blankLines 1 ++ (thread.entries.map renderEntry).flatten)).text := by
  have fenced : "\n\n```yaml\n".toList = ['\n'] ++ fence := rfl
  have closed : "```\n\n".toList = fenceEnd ++ blankLines 1 := rfl
  have written := printed.toStr thread.status
  unfold renderThread
  rw [written, fenced, closed]
  simp only [Stretch.text, stretchOf, List.append_assoc, Option.getD_some]

/-- The slot of a thread just opened. -/
def Slot.opened (thread : Thread) {fields : Text} (isId : IsThreadId thread.id)
    (stamps : ∀ entry ∈ thread.entries, IsStamp entry.writtenAt)
    (printed : Printed yaml thread.anchor fields) : Slot yaml where
  thread
  fields
  tail := blankLines 1 ++ toLf (thread.entries.map renderEntry).flatten
  isId
  printed
  history := by simpa using (IsHistory.blank 1).append_entries thread.entries stamps

theorem toLf_renderThread (isId : IsThreadId thread.id)
    (stamps : ∀ entry ∈ thread.entries, IsStamp entry.writtenAt)
    (printed : Printed yaml thread.anchor fields) :
    toLf (renderThread yaml thread) = (Slot.opened thread isId stamps printed).stretch.text := by
  rw [renderThread_eq printed, toLf_stretchOf isId printed,
    toLf_append (terminated_blankLines 1), toLf_blankLines]
  rfl

theorem exists_spaced (slot : Slot yaml) (before : Text) :
    ∃ spaced : Slot yaml, spaced.thread = slot.thread ∧
      trimNewlines (before ++ slot.stretch.text) ++ "\n\n".toList =
        before ++ spaced.stretch.text := by
  obtain ⟨kept, count, -, history, trimmed⟩ := slot.exists_cut before
  refine ⟨{ slot with tail := kept ++ blankLines 1, history := history.append_blank 1 },
    rfl, ?_⟩
  have feeds : ∀ text : Text, text ++ "\n\n".toList = (text ++ ['\n']) ++ ['\n'] := by
    intro text
    simp
  apply (feeds _).trans
  rw [trimmed]
  simp only [Slot.stretch, Stretch.text, stretchOf, blankLines, List.append_assoc]
  rfl

theorem trim_ne_nil {text : Text} {char : Char} (member : char ∈ text)
    (kept : isWhitespace char = false) : trim text ≠ [] := by
  intro blank
  rw [trim_eq_nil_iff.mp blank char member] at kept
  exact Bool.noConfusion kept

/-- Opening a thread adds its slot. -/
theorem stands_openThread (stands : Stands yaml file slots)
    (fresh : thread.id ∉ slots.map fun slot => slot.thread.id) (isId : IsThreadId thread.id)
    (stamps : ∀ entry ∈ thread.entries, IsStamp entry.writtenAt)
    (printed : Printed yaml thread.anchor fields) :
    ∃ after : List (Slot yaml), Stands yaml (openThread yaml file thread) after ∧
      after.map Slot.thread = slots.map Slot.thread ++ [thread] := by
  have opening : ∃ spaced : List (Slot yaml),
      spaced.map Slot.thread = slots.map Slot.thread ∧
      openThread yaml file thread =
        titleText ++ joined (spaced.map Slot.stretch) ++ renderThread yaml thread := by
    cases slots using List.reverseRecOn with
    | nil =>
        refine ⟨[], rfl, ?_⟩
        rw [stands.empty rfl]
        rfl
    | append_singleton front last _ =>
        obtain ⟨spaced, same, trimmed⟩ :=
          exists_spaced last (titleText ++ joined (front.map Slot.stretch))
        refine ⟨front ++ [spaced], by simp [same], ?_⟩
        have notBlank := stands.notBlank (by simp)
        have whole : ∀ slot : Slot yaml,
            titleText ++ joined ((front ++ [slot]).map Slot.stretch) =
              titleText ++ joined (front.map Slot.stretch) ++ slot.stretch.text := by
          intro slot
          simp [joined]
        rw [openThread, if_neg (by simpa using notBlank), stands.converted (by simp), whole,
          trimmed, whole]
  obtain ⟨spaced, same, written⟩ := opening
  have ids : spaced.map (fun slot => slot.thread.id) =
      slots.map fun slot => slot.thread.id := by
    have mapped := congrArg (List.map Thread.id) same
    simpa [Function.comp_def] using mapped
  refine ⟨spaced ++ [Slot.opened thread isId stamps printed], ⟨?_, by simp, ?_, ?_⟩, ?_⟩
  · have other : ∀ slot ∈ slots, slot.thread.id ≠ thread.id := fun slot member same =>
      fresh (List.mem_map.mpr ⟨slot, member, same⟩)
    rw [List.map_append, ids, List.nodup_append]
    exact ⟨stands.nodup, by simp, by simpa [Slot.opened] using other⟩
  · intro _
    have ended : Terminated (titleText ++ joined (spaced.map Slot.stretch)) :=
      terminated_titleText.append (terminated_joined (wellCut_slots spaced))
    rw [written, toLf_append ended, toLf_append terminated_titleText, toLf_titleText,
      toLf_joined, toLf_renderThread isId stamps printed]
    simp [joined]
  · intro _
    rw [written]
    have hash : '#' ∈ titleText := by decide
    apply trim_ne_nil (List.mem_append_left _ (List.mem_append_left _ hash))
    decide
  · simp [same, Slot.opened]

theorem newStatus_leaves {id : Text} {old : ThreadStatus} {new : Option ThreadStatus}
    (allowed : newStatus id entry old = .ok new) : new.getD old = entry.kind.leaves old := by
  obtain ⟨writtenAt, kind, author, text⟩ := entry
  cases kind <;> cases old <;> simp only [newStatus] at allowed
  case comment.opened =>
    cases allowed
    rfl
  case resolve.opened =>
    split at allowed
    · cases allowed
    · cases allowed
      rfl
  case reopen.resolved =>
    cases allowed
    rfl
  all_goals cases allowed

theorem findThread_absent (yaml : MetaYaml) {title : Text} (ended : Terminated title)
    (plain : Plain title) {stretches : List Stretch}
    (wellCut : ∀ stretch ∈ stretches, stretch.WellCut) {id : Text}
    (absent : ∀ stretch ∈ stretches, stretch.id ≠ id) :
    findThread yaml (title ++ joined stretches) id = none := by
  have none : (spansFrom title.length stretches).filter (fun span => span.id == id) = [] := by
    rw [List.filter_eq_nil_iff]
    intro span member
    have idMember : span.id ∈ stretches.map Stretch.id := by
      rw [← spansFrom_ids title.length]
      exact List.mem_map_of_mem member
    obtain ⟨other, otherMember, same⟩ := List.mem_map.mp idMember
    have different := absent other otherMember
    simpa [← same] using different
  rw [findThread, threadSpans_joined ended plain wellCut, none]
  rfl

section

variable {file id result : Text} (stands : Stands yaml file slots)
include stands

theorem exists_slot_of_appendEntry (done : appendEntry yaml file id entry = .ok result) :
    ∃ front slot back, slots = front ++ slot :: back ∧ slot.thread.id = id := by
  by_contra absent
  have others : ∀ stretch ∈ slots.map Slot.stretch, stretch.id ≠ id := by
    intro stretch member same
    obtain ⟨slot, slotMember, rfl⟩ := List.mem_map.mp member
    obtain ⟨front, back, shape⟩ := List.append_of_mem slotMember
    exact absent ⟨front, slot, back, shape, by rw [← same, slot.stretch_id]⟩
  have notFound : findThread yaml (toLf file) id = none := by
    by_cases empty : slots = []
    · have file := stands.empty empty
      subst file
      rfl
    · rw [stands.converted empty]
      exact findThread_absent yaml terminated_titleText plain_titleText
        (wellCut_slots slots) others
  rw [appendEntry, notFound] at done
  cases done

/-- An append changes one slot: its status, and its text by the entry. -/
theorem stands_appendEntry (stamp : IsStamp entry.writtenAt)
    (done : appendEntry yaml file id entry = .ok result) :
    ∃ (front back : List (Slot yaml)) (slot after : Slot yaml) (kept : Text) (count : Nat),
      slots = front ++ slot :: back ∧ slot.thread.id = id ∧
      (∀ other ∈ front ++ back, other.thread.id ≠ id) ∧
      slot.tail = kept ++ blankLines count ∧ IsHistory kept slot.thread.entries ∧
      after.thread = slot.thread.record entry ∧
      result = titleText ++ joined (front.map Slot.stretch ++
        stretchOf id slot.fields after.thread.status
          (kept ++ renderEntry entry ++ blankLines count) :: back.map Slot.stretch) ∧
      Stands yaml result (front ++ after :: back) := by
  obtain ⟨front, slot, back, rfl, rfl⟩ := exists_slot_of_appendEntry stands done
  have nodup := stands.nodup
  have others : ∀ other ∈ front ++ back, other.thread.id ≠ slot.thread.id := by
    have perm := (List.perm_middle.map fun slot : Slot yaml => slot.thread.id).nodup_iff.mp nodup
    rw [List.map_cons, List.nodup_cons] at perm
    intro other member same
    exact perm.1 (List.mem_map.mpr ⟨other, member, same⟩)
  have converted := stands.converted (by simp)
  rw [List.map_append, List.map_cons] at converted
  have wellCut := wellCut_slots (front ++ slot :: back)
  rw [List.map_append, List.map_cons] at wellCut
  have first : ∀ other ∈ front.map Slot.stretch, other.id ≠ slot.thread.id := by
    intro stretch member
    obtain ⟨other, otherMember, rfl⟩ := List.mem_map.mp member
    rw [other.stretch_id]
    exact others other (by simp [otherMember])
  obtain ⟨kept, count, tailEq, history, appended⟩ :=
    appendEntry_slot converted wellCut first entry
  rw [appended] at done
  cases allowed : newStatus slot.thread.id entry slot.thread.status with
  | error refusal =>
      rw [allowed] at done
      cases done
  | ok status =>
      rw [allowed] at done
      have leaves := newStatus_leaves allowed
      let after : Slot yaml :=
        { thread := slot.thread.record entry
          fields := slot.fields
          tail := kept ++ toLf (renderEntry entry) ++ blankLines count
          isId := slot.isId
          printed := slot.printed
          history := (history.append_entry entry stamp).append_blank count }
      have afterStatus : after.thread.status = status.getD slot.thread.status := leaves.symm
      have written : result = titleText ++ joined (front.map Slot.stretch ++
          stretchOf slot.thread.id slot.fields after.thread.status
            (kept ++ renderEntry entry ++ blankLines count) :: back.map Slot.stretch) := by
        rw [afterStatus]
        exact (Except.ok.inj done).symm
      have entryEnded := terminated_renderEntry entry stamp
      have rawEnded : Terminated (kept ++ renderEntry entry ++ blankLines count) :=
        (history.ended.append entryEnded).append (terminated_blankLines count)
      have tailLf : toLf (kept ++ renderEntry entry ++ blankLines count) = after.tail := by
        rw [toLf_append (history.ended.append entryEnded), toLf_append history.ended,
          history.converted, toLf_blankLines]
      refine ⟨front, back, slot, after, kept, count, rfl, rfl, others, tailEq, history, rfl,
        written, ?_, by simp, ?_, ?_⟩
      · have ids : (front ++ after :: back).map (fun slot => slot.thread.id) =
            (front ++ slot :: back).map fun slot => slot.thread.id := by
          simp [after, Thread.record]
        rw [ids]
        exact nodup
      · intro _
        have plain : Plain (kept ++ renderEntry entry ++ blankLines count) :=
          (history.plain.append history.ended (plain_renderEntry entry stamp)).append
            (history.ended.append entryEnded) (plain_blankLines count)
        have cut := stretchOf_wellCut slot.isId slot.printed
          (status.getD slot.thread.status) rawEnded plain
        have stretchLf := toLf_stretchOf slot.isId slot.printed
          (status.getD slot.thread.status) (kept ++ renderEntry entry ++ blankLines count)
        rw [tailLf, ← afterStatus] at stretchLf
        rw [← afterStatus] at cut
        rw [written, joined_append, joined_cons,
          toLf_append terminated_titleText, toLf_titleText,
          toLf_append (terminated_joined (wellCut_slots front)), toLf_joined,
          toLf_append cut.text_ended, stretchLf, toLf_joined]
        simp only [List.map_append, List.map_cons, joined_append, joined_cons]
        rfl
      · intro _
        have hash : '#' ∈ titleText := by decide
        rw [written]
        apply trim_ne_nil (List.mem_append_left _ hash)
        decide

end

/-- Every built file stands. -/
theorem Built.stands {threads : List Thread} (built : Built yaml file threads) :
    ∃ slots : List (Slot yaml), Stands yaml file slots ∧
      slots.map Slot.thread = threads := by
  induction built with
  | empty => exact ⟨[], ⟨by simp, fun _ => rfl, by simp, by simp⟩, rfl⟩
  | opened _ fresh isId stamps printed ih =>
      obtain ⟨slots, stands, rfl⟩ := ih
      rw [List.map_map] at fresh
      exact stands_openThread stands fresh isId stamps printed
  | @appended file result id threads entry _ stamp done ih =>
      obtain ⟨slots, stands, rfl⟩ := ih
      obtain ⟨front, back, slot, after, kept, count, rfl, rfl, others, -, -, recorded, -,
        afterStands⟩ := stands_appendEntry stands stamp done
      refine ⟨front ++ after :: back, afterStands, ?_⟩
      have unchanged : ∀ part : List (Slot yaml), (∀ other ∈ part, other ∈ front ++ back) →
          (part.map Slot.thread).map (fun thread =>
            if thread.id = slot.thread.id then thread.record entry else thread) =
          part.map Slot.thread := by
        intro part inside
        rw [List.map_map]
        apply List.map_congr_left
        intro other member
        exact if_neg (others other (inside other member))
      have ownId : (if slot.thread.id = slot.thread.id then slot.thread.record entry
          else slot.thread) = slot.thread.record entry := if_pos rfl
      rw [List.map_append, List.map_append, List.map_append, List.map_cons, List.map_cons,
        List.map_cons, ownId, recorded, unchanged front fun other member => by simp [member],
        unchanged back fun other member => by simp [member]]

theorem parseThreads_stands (stands : Stands yaml file slots) :
    parseThreads yaml file = slots.map fun slot => slot.thread.asRead := by
  by_cases empty : slots = []
  · subst empty
    have file := stands.empty rfl
    subst file
    rfl
  · have read := filterMap_spansFrom (fun id rest => (readBody yaml id rest).map Prod.fst)
      titleText (slots.map Slot.stretch)
    rw [parseThreads, stands.converted empty,
      threadSpans_joined terminated_titleText plain_titleText (wellCut_slots slots)]
    apply read.trans
    rw [List.filterMap_map]
    apply List.filterMap_eq_map_iff_forall_eq_some.mpr
    intro slot _
    have body := readBody_stretchOf slot.printed slot.thread.id slot.thread.id
      slot.thread.status slot.tail
    change (readBody yaml slot.stretch.id slot.stretch.body).map Prod.fst = _
    rw [slot.stretch_id, Slot.stretch, body, slot.history.reads]
    rfl

end Invariant

/-- The texts of a file's threads before and after an append to the thread `id`:
all others are the same, and in its own the status word and the new entry, behind
the earlier ones, are the whole difference. -/
def AddsEntry (id : Text) (entry : Entry) (earlier : List Entry)
    (old : ThreadStatus) (before after : List (Text × Text)) : Prop :=
  ∃ (front back : List (Text × Text)) (lead history : Text) (count : Nat),
    (∀ other ∈ front ++ back, other.1 ≠ id) ∧
    before = front ++ (id, lead ++ statusLine old ++ fenceEnd ++ history ++
      blankLines count) :: back ∧
    after = front ++ (id, lead ++ statusLine (entry.kind.leaves old) ++ fenceEnd ++
      history ++ renderEntry entry ++ blankLines count) :: back ∧
    readEntries history = earlier.map Entry.asRead

/-- A file built by opening threads and appending entries reads as exactly those
threads, and an append to it changes no other thread and no earlier entry. -/
theorem built_reads_and_grows {yaml : MetaYaml} {file : Text} {threads : List Thread}
    (built : Built yaml file threads) :
    parseThreads yaml file = threads.map Thread.asRead ∧
      ∀ (id : Text) (entry : Entry) (result : Text), IsStamp entry.writtenAt →
        appendEntry yaml file id entry = .ok result →
        ∃ thread ∈ threads, thread.id = id ∧
          AddsEntry id entry thread.entries thread.status (threadTexts (toLf file))
            (threadTexts result) := by
  obtain ⟨slots, stands, rfl⟩ := built.stands
  refine ⟨by simpa [Function.comp_def] using parseThreads_stands stands, ?_⟩
  intro id entry result stamp done
  obtain ⟨front, back, slot, after, kept, count, rfl, rfl, others, tailEq, history, recorded,
    written, afterStands⟩ := stands_appendEntry stands stamp done
  refine ⟨slot.thread, by simp, rfl, ?_⟩
  have converted := stands.converted (by simp)
  have wellCut := wellCut_slots (front ++ slot :: back)
  rw [List.map_append, List.map_cons] at converted wellCut
  have entryEnded := terminated_renderEntry entry stamp
  have newCut := stretchOf_wellCut slot.isId slot.printed after.thread.status
    ((history.ended.append entryEnded).append (terminated_blankLines count))
    ((history.plain.append history.ended (plain_renderEntry entry stamp)).append
      (history.ended.append entryEnded) (plain_blankLines count))
  have afterCut : ∀ stretch ∈ front.map Slot.stretch ++
      stretchOf slot.thread.id slot.fields after.thread.status
        (kept ++ renderEntry entry ++ blankLines count) :: back.map Slot.stretch,
      stretch.WellCut := by
    intro stretch member
    rcases List.mem_append.mp member with inFront | inBack
    · exact wellCut stretch (List.mem_append_left _ inFront)
    · rcases List.mem_cons.mp inBack with rfl | later
      · exact newCut
      · exact wellCut stretch (List.mem_append_right _ (List.mem_cons_of_mem _ later))
  have beforeTexts := threadTexts_joined terminated_titleText plain_titleText wellCut
  have afterTexts := threadTexts_joined terminated_titleText plain_titleText afterCut
  rw [← converted] at beforeTexts
  rw [← written] at afterTexts
  refine ⟨(front.map Slot.stretch).map fun stretch => (stretch.id, stretch.text),
    (back.map Slot.stretch).map fun stretch => (stretch.id, stretch.text),
    "## ".toList ++ slot.thread.id ++ ['\n'] ++ fence ++ slot.fields, kept, count,
    ?_, ?_, ?_, history.reads⟩
  · intro other member
    rw [← List.map_append, ← List.map_append, List.map_map] at member
    obtain ⟨otherSlot, slotMember, rfl⟩ := List.mem_map.mp member
    change otherSlot.stretch.id ≠ _
    rw [otherSlot.stretch_id]
    exact others otherSlot slotMember
  · rw [beforeTexts, List.map_append, List.map_cons, slot.stretch_id]
    simp only [Slot.stretch, Stretch.text, stretchOf, tailEq, List.append_assoc]
  · rw [afterTexts, List.map_append, List.map_cons, stretchOf_id slot.isId, recorded]
    simp only [Thread.record, Stretch.text, stretchOf, List.append_assoc]

/-! Prints and reads the blocks whose fields are plain one-line strings and whose
occurrence is one digit.
-/

def plainField (key : Text) : Option Text → Text
  | some value => key ++ ": ".toList ++ value ++ ['\n']
  | none => []

def plainValue (key text : Text) : Option Text :=
  (lines text).findSome? (stripPrefix (key ++ ": ".toList))

def plainMeta : MetaYaml where
  toStr block := some (plainField "section".toList block.sectionId ++
    plainField "heading".toList block.heading ++ plainField "quote".toList block.quote ++
    plainField "occurrence".toList (some [Char.ofNat (48 + block.occurrence)]) ++
    statusLine block.status)
  fromStr text :=
    let status :=
      if plainValue "status".toList text = some "open".toList then some ThreadStatus.opened
      else if plainValue "status".toList text = some "resolved".toList then
        some ThreadStatus.resolved
      else none
    status.map fun status =>
      { sectionId := plainValue "section".toList text
        heading := plainValue "heading".toList text
        quote := plainValue "quote".toList text
        occurrence := match plainValue "occurrence".toList text with
          | some [digit] => digit.toNat - 48
          | _ => 1
        status }

def plainFields : Text := "section: 7f3a9c2e\noccurrence: 1\n".toList

def plainAnchor (occurrence : Nat) : Anchor :=
  ⟨.id "7f3a9c2e".toList, none, occurrence⟩

theorem plainMeta_printed {occurrence : Nat} (small : occurrence ≤ 1) :
    Printed plainMeta (plainAnchor occurrence) plainFields := by
  have atMostOne : ∀ status, metaOf (plainAnchor occurrence) status =
      metaOf (plainAnchor 1) status := by
    intro status
    have one : max occurrence 1 = 1 := by omega
    simp [metaOf, plainAnchor, one]
  refine ⟨terminated_iff_getLast?.mpr (Or.inr (by decide)), by decide, by decide, ?_, ?_⟩
  · intro status
    rw [atMostOne]
    cases status <;> decide +kernel
  · intro status
    rw [atMostOne]
    cases status <;> decide +kernel

/-- A thread opened with one comment of a person. -/
def plainThread (id : String) (occurrence : Nat) (text : String) : Thread :=
  { id := id.toList
    anchor := plainAnchor occurrence
    status := .opened
    entries := [⟨"2026-09-30".toList, .comment, ⟨"jo".toList, false⟩, text.toList⟩] }

/-- The outcome that resolves a thread. -/
def plainOutcome : Entry :=
  ⟨"2026-10-01".toList, .resolve, ⟨"bot (a)".toList, true⟩,
    "moved\n\n## out\n".toList⟩

def plainFirst : Thread := plainThread "t-3f9a2c1b" 1 "still true?\n- yes: ): "

def plainOpened : Text := openThread plainMeta [] plainFirst

theorem plainOpened_built : Built plainMeta plainOpened [plainFirst] :=
  Built.empty.opened (by simp) ⟨by decide, by decide⟩ (by decide)
    (plainMeta_printed (Nat.le_refl 1))

def plainResolved : Text :=
  "# Threads\n\n## t-3f9a2c1b\n\n```yaml\nsection: 7f3a9c2e\noccurrence: 1\n".toList ++
    "status: resolved\n```\n\n- 2026-09-30, comment by jo (person): still true?\n".toList ++
    "  - yes: ): \n- 2026-10-01, resolve by bot a (agent): moved\n\n  ## out\n".toList

theorem built_reads_and_grows_resolved :
    parseThreads plainMeta plainOpened = [plainFirst.asRead] ∧
      ∃ thread ∈ [plainFirst], thread.id = plainFirst.id ∧
        AddsEntry plainFirst.id plainOutcome thread.entries thread.status
          (threadTexts (toLf plainOpened)) (threadTexts plainResolved) := by
  obtain ⟨reads, grows⟩ := built_reads_and_grows plainOpened_built
  exact ⟨reads, grows plainFirst.id plainOutcome plainResolved (by decide) (by decide +kernel)⟩

/-- A thread whose only line ends with a carriage return and whose anchor counts
from nought. -/
def plainSecond : Thread := plainThread "t-0000c0de" 0 "b\r"

/-- The second thread's text comes back without its carriage return and its
anchor with another occurrence, and an append to the first thread changes the
second one's bytes. -/
theorem built_carriageReturn_changes :
    Built plainMeta (openThread plainMeta plainOpened plainSecond)
        [plainFirst, plainSecond] ∧
      toLf "b\r".toList = "b\r".toList ∧
      (parseThreads plainMeta (openThread plainMeta plainOpened plainSecond)).map
          (fun thread => (thread.anchor.occurrence, thread.entries.map Entry.text)) =
        [(1, ["still true?\n- yes: ): ".toList]), (1, ["b".toList])] ∧
      ∃ result, appendEntry plainMeta (openThread plainMeta plainOpened plainSecond)
          plainFirst.id plainOutcome = .ok result ∧
        ∃ other ∈ threadTexts (openThread plainMeta plainOpened plainSecond),
          other.1 ≠ plainFirst.id ∧ other ∉ threadTexts result := by
  refine ⟨plainOpened_built.opened (by decide) ⟨by decide, by decide⟩ (by decide)
    (plainMeta_printed (Nat.zero_le 1)), by decide +kernel, by decide +kernel, ?_⟩
  refine ⟨toLf (openThread plainMeta plainResolved plainSecond), by decide +kernel, ?_⟩
  decide +kernel

end Crystalline.Threads
