import Crystalline.Threads.Slots

/-!
# Appending to one thread

`appendEntry` on a file whose stretches are known: it finds the stretch of the
id, sets the status in its block and inserts the entry after the last line
that is not empty.  Everything before and after stays.
-/

namespace Crystalline.Threads

open Text

/-- An id whose `##` line gives it back. -/
structure IsThreadId (id : Text) : Prop where
  trimmed : trim id = id
  oneLine : '\n' ∉ id

def titleText : Text := "# Threads\n\n".toList

theorem terminated_titleText : Terminated titleText :=
  terminated_iff_getLast?.mpr (Or.inr (by decide))

theorem plain_titleText : Plain titleText := by
  unfold Plain
  decide

/-- The stretch of a thread with the yaml block's fields and the text under the
block as they stand. -/
def stretchOf (id fields : Text) (status : ThreadStatus) (tail : Text) : Stretch :=
  { line := "## ".toList ++ id ++ ['\n']
    body := fence ++ ((fields ++ statusLine status) ++ (fenceEnd ++ tail)) }

theorem stretchOf_id {id : Text} (isId : IsThreadId id) (fields : Text)
    (status : ThreadStatus) (tail : Text) :
    (stretchOf id fields status tail).id = id := by
  change trim (id ++ ['\n']) = id
  rw [trim_snoc (by decide), isId.trimmed]

theorem IsThreadId.toLf_line {id : Text} (isId : IsThreadId id) :
    toLf ("## ".toList ++ id ++ ['\n']) = "## ".toList ++ id ++ ['\n'] := by
  have kept : withoutReturns ("## ".toList ++ id) = "## ".toList ++ id := by
    cases id using List.reverseRecOn with
    | nil => rfl
    | append_singleton front last _ =>
        rw [← List.append_assoc]
        apply withoutReturns_snoc_other
        rintro rfl
        have blank := not_whitespace_of_trim_eq isId.trimmed
        revert blank
        decide
  rw [Text.toLf_line (by simpa using isId.oneLine), kept]

variable {yaml : MetaYaml} {anchor : Anchor} {fields : Text} {front back : List Stretch}

section

variable (printed : Printed yaml anchor fields) (status : ThreadStatus)
include printed status

theorem terminated_block : Terminated (fields ++ statusLine status) :=
  printed.ended.append (isLine_statusLine status).terminated

theorem block_lines {line : Text} (member : line ∈ splitInclusive (fields ++ statusLine status)) :
    ¬ "## ".toList <+: line ∧ ¬ "```".toList <+: line := by
  have alone := splitInclusive_line_append (isLine_statusLine status) []
  rw [List.append_nil] at alone
  rw [splitInclusive_append printed.ended, alone] at member
  rcases List.mem_append.mp member with isField | isStatus
  · have fieldLine := printed.fieldLines line isField
    exact ⟨fieldLine.not_prefix.1, fieldLine.not_prefix.2.1⟩
  · have same : line = statusLine status := by simpa [splitInclusive] using isStatus
    rw [same]
    exact statusLine_not_prefix status

end

theorem stretchOf_wellCut {id fields tail : Text} (isId : IsThreadId id)
    (printed : Printed yaml anchor fields) (status : ThreadStatus) (ended : Terminated tail)
    (plain : Plain tail) : (stretchOf id fields status tail).WellCut := by
  have fenceEnded : Terminated fence := terminated_iff_getLast?.mpr (Or.inr (by decide))
  have closeEnded : Terminated fenceEnd := terminated_iff_getLast?.mpr (Or.inr (by decide))
  have fencePlain : Plain fence := by unfold Plain; decide
  have closePlain : Plain fenceEnd := by unfold Plain; decide
  have blockEnded := terminated_block printed status
  have blockPlain : Plain (fields ++ statusLine status) := fun line member =>
    (block_lines printed status member).1
  refine ⟨isLine_snoc ?_, ?_, ?_, ?_⟩
  · simpa using isId.oneLine
  · exact ⟨id ++ ['\n'], by simp [stretchOf]⟩
  · exact fenceEnded.append (blockEnded.append (closeEnded.append ended))
  · exact fencePlain.append fenceEnded
      (blockPlain.append blockEnded (closePlain.append closeEnded plain))

theorem readBody_stretchOf (printed : Printed yaml anchor fields) (name id : Text)
    (status : ThreadStatus) (tail : Text) :
    readBody yaml name (stretchOf id fields status tail).body =
      some ({ id := name
              anchor := { anchor with occurrence := max anchor.occurrence 1 }
              status
              entries := readEntries tail }, metaOf anchor status) := by
  have block := yamlBlock_fenced (terminated_block printed status)
    (fun line member => (block_lines printed status member).2) tail
  have inside := slice_append fence (fields ++ statusLine status) (fenceEnd ++ tail)
  have after : (fence ++ ((fields ++ statusLine status) ++ (fenceEnd ++ tail))).drop
      (fence.length + (fields ++ statusLine status).length + fenceEnd.length) = tail := by
    rw [Nat.add_assoc, List.drop_length_add_append, List.drop_length_add_append, List.drop_left]
  simp only [readBody, stretchOf, block, Option.bind_eq_bind, Option.bind_some, inside,
    printed.fromStr status, after]
  obtain ⟨sectionRef, quote, occurrence⟩ := anchor
  cases sectionRef <;> rfl

theorem toLf_stretchOf {id fields : Text} (isId : IsThreadId id)
    (printed : Printed yaml anchor fields) (status : ThreadStatus) (tail : Text) :
    toLf (stretchOf id fields status tail).text =
      (stretchOf id fields status (toLf tail)).text := by
  have lineEnded : Terminated ("## ".toList ++ id ++ ['\n']) := terminated_snoc _
  have fenceEnded : Terminated fence := terminated_iff_getLast?.mpr (Or.inr (by decide))
  have closeEnded : Terminated fenceEnd := terminated_iff_getLast?.mpr (Or.inr (by decide))
  have statusKept : toLf (statusLine status) = statusLine status := by
    apply toLf_of_no_return
    cases status <;> decide
  have fenceKept : toLf fence = fence := toLf_of_no_return (by decide)
  have closeKept : toLf fenceEnd = fenceEnd := toLf_of_no_return (by decide)
  rw [Stretch.text, Stretch.text, stretchOf, stretchOf]
  simp only
  rw [toLf_append lineEnded, isId.toLf_line, toLf_append fenceEnded, fenceKept,
    toLf_append (terminated_block printed status), toLf_append printed.ended,
    toLf_of_no_return printed.noReturn, statusKept, toLf_append closeEnded, closeKept]

/-- The one stretch of an id is the one an append finds. -/
theorem findThread_joined (yaml : MetaYaml) {title : Text} (ended : Terminated title)
    (plain : Plain title) {stretch : Stretch}
    (wellCut : ∀ other ∈ front ++ stretch :: back, other.WellCut)
    (first : ∀ other ∈ front, other.id ≠ stretch.id) {read : Thread × Meta}
    (reads : readBody yaml stretch.id stretch.body = some read) :
    findThread yaml (title ++ joined (front ++ stretch :: back)) stretch.id =
      some (stretch.span (title ++ joined front).length, read) := by
  have skipped : (spansFrom title.length front).filter
      (fun span => span.id == stretch.id) = [] := by
    rw [List.filter_eq_nil_iff]
    intro span member
    have idMember : span.id ∈ front.map Stretch.id := by
      rw [← spansFrom_ids title.length]
      exact List.mem_map_of_mem member
    obtain ⟨other, otherMember, same⟩ := List.mem_map.mp idMember
    have different := first other otherMember
    simpa [← same] using different
  have body := slice_span_body (title ++ joined front) (joined back) stretch
  have whole : title ++ joined (front ++ stretch :: back) =
      (title ++ joined front) ++ (stretch.text ++ joined back) := by
    simp [joined_append, joined_cons]
  have found : ((stretch.span (title ++ joined front).length).id == stretch.id) = true :=
    beq_self_eq_true stretch.id
  have start : title.length + (joined front).length = (title ++ joined front).length := by
    simp
  rw [findThread, threadSpans_joined ended plain wellCut, spansFrom_append,
    List.filter_append, skipped, List.nil_append, spansFrom, start,
    List.filter_cons, if_pos found, List.findSome?_cons, readThread, whole, body]
  have spanRead : readBody yaml (stretch.span (title ++ joined front).length).id
      stretch.body = some read := reads
  rw [spanRead]
  rfl

section

variable {before after : Text} {position : Nat} (same : position = before.length)
include same

theorem take_at : (before ++ after).take position = before := by
  rw [same, List.take_left]

theorem drop_at : (before ++ after).drop position = after := by
  rw [same, List.drop_left]

end

/-- The status of a block is set in the text before the entry, which holds the
whole block. -/
theorem setStatus_stretchOf (printed : Printed yaml anchor fields) (id : Text)
    (old new : ThreadStatus) (before tail after kept : Text) :
    setStatus yaml (before ++ ((stretchOf id fields old tail).text ++ after))
        (before ++ (stretchOf id fields old kept).text) id
        ((stretchOf id fields old tail).span before.length) (metaOf anchor old) new =
      .ok (before ++ (stretchOf id fields new kept).text) := by
  have block := yamlBlock_fenced (terminated_block printed old)
    (fun line member => (block_lines printed old member).2) tail
  have body := slice_span_body before after (stretchOf id fields old tail)
  have bodyEq : (stretchOf id fields old tail).body =
      fence ++ ((fields ++ statusLine old) ++ (fenceEnd ++ tail)) := rfl
  have lead : ((stretchOf id fields old tail).span before.length).body + fence.length =
      (before ++ ("## ".toList ++ id ++ ['\n']) ++ fence).length := by
    simp only [stretchOf, Stretch.span, List.length_append]
  have inside := slice_append (before ++ ("## ".toList ++ id ++ ['\n']) ++ fence)
    (fields ++ statusLine old) (fenceEnd ++ tail ++ after)
  have fileEq : before ++ ((stretchOf id fields old tail).text ++ after) =
      (before ++ ("## ".toList ++ id ++ ['\n']) ++ fence) ++
        ((fields ++ statusLine old) ++ (fenceEnd ++ tail ++ after)) := by
    simp [stretchOf, Stretch.text]
  have headEq : ∀ status : ThreadStatus, before ++ (stretchOf id fields status kept).text =
      (before ++ ("## ".toList ++ id ++ ['\n']) ++ fence) ++
        ((fields ++ statusLine status) ++ (fenceEnd ++ kept)) := by
    intro status
    simp [stretchOf, Stretch.text]
  rw [setStatus, body, bodyEq, block]
  simp only [← Nat.add_assoc, lead]
  rw [fileEq, inside, withStatus_printed printed old new]
  simp only
  rw [headEq old, headEq new, take_at rfl, ← List.append_assoc _ (fields ++ statusLine old),
    drop_at List.length_append.symm]
  simp

/-- A thread as it stands in a file. -/
structure Slot (yaml : MetaYaml) where
  thread : Thread
  fields : Text
  tail : Text
  isId : IsThreadId thread.id
  printed : Printed yaml thread.anchor fields
  history : IsHistory tail thread.entries

namespace Slot

variable {yaml : MetaYaml}

def stretch (slot : Slot yaml) : Stretch :=
  stretchOf slot.thread.id slot.fields slot.thread.status slot.tail

section

variable (slot : Slot yaml)
include slot

theorem stretch_id : slot.stretch.id = slot.thread.id :=
  stretchOf_id slot.isId _ _ _

theorem stretch_wellCut : slot.stretch.WellCut :=
  stretchOf_wellCut slot.isId slot.printed _ slot.history.ended slot.history.plain

theorem toLf_stretch : toLf slot.stretch.text = slot.stretch.text := by
  rw [stretch, toLf_stretchOf slot.isId slot.printed, slot.history.converted]

/-- The text of a slot up to the end of its block, and the text under it with its
last blank lines apart. -/
theorem exists_cut (before : Text) :
    ∃ kept count, slot.tail = kept ++ blankLines count ∧
      IsHistory kept slot.thread.entries ∧
      trimNewlines (before ++ slot.stretch.text) ++ ['\n'] = before ++
        (stretchOf slot.thread.id slot.fields slot.thread.status kept).text := by
  have shape : ∀ tail : Text,
      before ++ (stretchOf slot.thread.id slot.fields slot.thread.status tail).text =
        (before ++ ("## ".toList ++ slot.thread.id ++ ['\n']) ++ fence ++
          (slot.fields ++ statusLine slot.thread.status) ++ "``".toList) ++ ['`'] ++ ['\n'] ++
            tail := by
    intro tail
    have close : fenceEnd = "``".toList ++ ['`'] ++ ['\n'] := rfl
    simp only [Stretch.text, stretchOf, close, List.append_assoc]
  obtain ⟨kept, count, tailEq, ended, trimmed⟩ := exists_kept
    (before ++ ("## ".toList ++ slot.thread.id ++ ['\n']) ++ fence ++
      (slot.fields ++ statusLine slot.thread.status) ++ "``".toList)
    (show '`' ≠ '\n' by decide) slot.history.ended
  have history := slot.history
  rw [tailEq] at history
  refine ⟨kept, count, tailEq, history.of_append_blank ended, ?_⟩
  rw [stretch, shape, shape, trimmed]

end

end Slot

section Cut

variable (slot : Slot yaml) {kept : Text} {count : Nat}

/-- The file up to the end of a thread's history, under a status. -/
def headWith (front : List Stretch) (slot : Slot yaml) (status : ThreadStatus) (kept : Text) :
    Text :=
  titleText ++ joined front ++ (stretchOf slot.thread.id slot.fields status kept).text

theorem joined_around (stretch : Stretch) : titleText ++ joined (front ++ stretch :: back) =
    (titleText ++ joined front) ++ (stretch.text ++ joined back) := by
  simp [joined_append, joined_cons]

variable (tailEq : slot.tail = kept ++ blankLines count)
include tailEq

theorem joined_slot : titleText ++ joined (front ++ slot.stretch :: back) =
    headWith front slot slot.thread.status kept ++ (blankLines count ++ joined back) := by
  have stretchEq : ∀ tail : Text,
      (stretchOf slot.thread.id slot.fields slot.thread.status (kept ++ tail)).text =
        (stretchOf slot.thread.id slot.fields slot.thread.status kept).text ++ tail := by
    intro tail
    simp [stretchOf, Stretch.text]
  rw [joined_around, Slot.stretch, tailEq, stretchEq, headWith]
  simp

/-- An entry goes behind the history's last line. -/
theorem insertionPoint_slot (trimmed : trimNewlines slot.stretch.text ++ ['\n'] =
      (stretchOf slot.thread.id slot.fields slot.thread.status kept).text) :
    insertionPoint (titleText ++ joined (front ++ slot.stretch :: back))
        (slot.stretch.span (titleText ++ joined front).length) =
      ((headWith front slot slot.thread.status kept).length, []) := by
  have sliced := slice_span_text (titleText ++ joined front) (joined back) slot.stretch
  rw [← joined_around] at sliced
  have content : titleText ++ joined front ++ trimNewlines slot.stretch.text ++ ['\n'] =
      headWith front slot slot.thread.status kept := by
    rw [List.append_assoc _ _ ['\n']]
    exact congrArg (titleText ++ joined front ++ ·) trimmed
  have rest : (titleText ++ joined (front ++ slot.stretch :: back)).drop
      ((titleText ++ joined front).length + (trimNewlines slot.stretch.text).length) =
        '\n' :: (blankLines count ++ joined back) := by
    rw [joined_slot slot tailEq, ← content, List.append_assoc _ ['\n'],
      drop_at List.length_append.symm]
    rfl
  have newline : startsWith ('\n' :: (blankLines count ++ joined back)) ['\n'] = true := by
    rw [startsWith_iff]
    exact ⟨_, rfl⟩
  have start : (slot.stretch.span (titleText ++ joined front).length).start =
      (titleText ++ joined front).length := rfl
  rw [insertionPoint, sliced, start, rest, newline, if_pos rfl, ← content]
  simp only [List.length_append, List.length_singleton]

omit tailEq in
theorem headBefore_slot (status : Option ThreadStatus) :
    headBefore yaml (titleText ++ joined (front ++ slot.stretch :: back))
        (headWith front slot slot.thread.status kept) slot.thread.id
        (slot.stretch.span (titleText ++ joined front).length)
        (metaOf slot.thread.anchor slot.thread.status) status =
      .ok (headWith front slot (status.getD slot.thread.status) kept) := by
  cases status with
  | none => rfl
  | some status =>
      rw [joined_around]
      exact setStatus_stretchOf slot.printed slot.thread.id slot.thread.status status
        (titleText ++ joined front) slot.tail (joined back) kept

end Cut

/-- An append to a thread of the file: what the thread's status refuses is
refused, anything else gets the entry behind the history's last line. -/
theorem appendEntry_slot {file : Text} {slot : Slot yaml}
    (converted : toLf file = titleText ++ joined (front ++ slot.stretch :: back))
    (wellCut : ∀ other ∈ front ++ slot.stretch :: back, other.WellCut)
    (first : ∀ other ∈ front, other.id ≠ slot.thread.id) (entry : Entry) :
    ∃ kept count, slot.tail = kept ++ blankLines count ∧
      IsHistory kept slot.thread.entries ∧
      appendEntry yaml file slot.thread.id entry =
        (newStatus slot.thread.id entry slot.thread.status).map fun status =>
          titleText ++ joined (front ++
            stretchOf slot.thread.id slot.fields (status.getD slot.thread.status)
              (kept ++ renderEntry entry ++ blankLines count) :: back) := by
  obtain ⟨kept, count, tailEq, history, trimmed⟩ := slot.exists_cut []
  refine ⟨kept, count, tailEq, history, ?_⟩
  rw [← slot.stretch_id] at first
  have found := findThread_joined yaml terminated_titleText plain_titleText wellCut first
    (readBody_stretchOf slot.printed slot.stretch.id slot.thread.id slot.thread.status
      slot.tail)
  rw [slot.stretch_id] at found
  have cutFile := @joined_slot yaml front back slot _ _ tailEq
  have insertion := @insertionPoint_slot yaml front back slot _ _ tailEq trimmed
  rw [appendEntry, converted, found]
  simp only
  cases allowed : newStatus slot.thread.id entry slot.thread.status with
  | error refusal => rfl
  | ok status =>
      have taken : (titleText ++ joined (front ++ slot.stretch :: back)).take
          (headWith front slot slot.thread.status kept).length =
            headWith front slot slot.thread.status kept := by
        rw [cutFile, List.take_left]
      have left : (titleText ++ joined (front ++ slot.stretch :: back)).drop
          (headWith front slot slot.thread.status kept).length =
            blankLines count ++ joined back := by
        rw [cutFile, List.drop_left]
      simp only [insertion, taken, headBefore_slot, Except.map, left]
      rw [joined_around]
      simp [headWith, stretchOf, Stretch.text]

end Crystalline.Threads
