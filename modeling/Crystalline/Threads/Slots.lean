import Crystalline.Threads.Entries

/-!
# One thread of a file

A slot is a thread as it stands in a file: the fields of its yaml block as
they were printed, its status and the text of its history.  The history text
is any text that reads as the entries, so that an append is a step on it.
-/

namespace Crystalline.Threads

open Text

section

/-- No line of the text opens a thread. -/
def Plain (text : Text) : Prop :=
  ∀ line ∈ splitInclusive text, ¬ "## ".toList <+: line

section

variable {left right : Text} (ended : Terminated left)
include ended

theorem Plain.append (leftPlain : Plain left) (rightPlain : Plain right) :
    Plain (left ++ right) := by
  intro line member
  rw [splitInclusive_append ended] at member
  exact (List.mem_append.mp member).elim (leftPlain line) (rightPlain line)

theorem Plain.of_append (plain : Plain (left ++ right)) : Plain left ∧ Plain right := by
  constructor <;> intro line member <;> apply plain line <;>
    simp [splitInclusive_append ended, member]

end

theorem Plain.toLf {text : Text} (ended : Terminated text) (plain : Plain text) :
    Plain (toLf text) := by
  intro line member
  rw [splitInclusive_toLf ended] at member
  obtain ⟨other, otherMember, rfl⟩ := List.mem_map.mp member
  obtain ⟨body, absent, rfl⟩ := ended other otherMember
  intro heading
  rw [lfLine_snoc, List.prefix_concat_iff] at heading
  rcases heading with whole | starts
  · have newline : '\n' ∈ "## ".toList := by simp [whole]
    revert newline
    decide
  · apply plain _ otherMember
    exact (starts.trans (withoutReturns_front body)).trans (List.prefix_append _ _)

/-- A thread's `##` line and the text under it. -/
structure Stretch where
  line : Text
  body : Text

namespace Stretch

def text (stretch : Stretch) : Text := stretch.line ++ stretch.body

def id (stretch : Stretch) : Text := trim (stretch.line.drop 3)

structure WellCut (stretch : Stretch) : Prop where
  isLine : IsLine stretch.line
  opens : "## ".toList <+: stretch.line
  ended : Terminated stretch.body
  plain : Plain stretch.body

theorem WellCut.text_ended {stretch : Stretch} (wellCut : stretch.WellCut) :
    Terminated stretch.text :=
  wellCut.isLine.terminated.append wellCut.ended

/-- The span of the stretch when it starts at `start`. -/
def span (stretch : Stretch) (start : Nat) : Span :=
  { id := stretch.id
    start
    body := start + stretch.line.length
    stop := start + stretch.text.length }

end Stretch

/-- The stretches one after the other. -/
def joined (stretches : List Stretch) : Text := (stretches.map Stretch.text).flatten

/-- The spans of stretches that stand one after the other from `start` on. -/
def spansFrom (start : Nat) : List Stretch → List Span
  | [] => []
  | stretch :: stretches =>
      stretch.span start :: spansFrom (start + stretch.text.length) stretches

theorem joined_cons (stretch : Stretch) (stretches : List Stretch) :
    joined (stretch :: stretches) = stretch.text ++ joined stretches := by
  simp [joined]

theorem joined_append (left right : List Stretch) :
    joined (left ++ right) = joined left ++ joined right := by
  simp [joined]

theorem spansFrom_append (start : Nat) (left right : List Stretch) :
    spansFrom start (left ++ right) =
      spansFrom start left ++ spansFrom (start + (joined left).length) right := by
  induction left generalizing start with
  | nil => simp [spansFrom, joined]
  | cons stretch left ih =>
      simp only [List.cons_append, spansFrom, ih, joined_cons, List.length_append, Nat.add_assoc]

theorem spansFrom_ids (start : Nat) (stretches : List Stretch) :
    (spansFrom start stretches).map Span.id = stretches.map Stretch.id := by
  induction stretches generalizing start with
  | nil => rfl
  | cons stretch stretches ih => simp [spansFrom, Stretch.span, ih]

theorem foldl_spanStep_plain (total : Nat) {lines : List Text}
    (plain : ∀ line ∈ lines, ¬ "## ".toList <+: line) (state : List Span × Nat) :
    lines.foldl (spanStep total) state = (state.1, state.2 + lines.flatten.length) := by
  induction lines generalizing state with
  | nil => simp
  | cons line lines ih =>
      have notHeading := stripPrefix_eq_none_iff.mpr (plain line (by simp))
      rw [List.foldl_cons, ih fun other member =>
        plain other (List.mem_cons_of_mem _ member)]
      simp only [spanStep, notHeading, List.flatten_cons, List.length_append, Nat.add_assoc]

theorem foldl_spanStep_stretch (total : Nat) {stretch : Stretch}
    (wellCut : stretch.WellCut) (state : List Span × Nat) :
    (splitInclusive stretch.text).foldl (spanStep total) state =
      (endLast state.2 state.1 ++ [{ stretch.span state.2 with stop := total }],
        state.2 + stretch.text.length) := by
  obtain ⟨rest, whole⟩ := wellCut.opens
  have heading : stripPrefix "## ".toList stretch.line = some (stretch.line.drop 3) := by
    rw [stripPrefix_eq_some_iff, ← whole]
    rfl
  rw [Stretch.text, splitInclusive_line_append wellCut.isLine, List.foldl_cons,
    foldl_spanStep_plain total wellCut.plain]
  simp only [spanStep, heading, Stretch.span, Stretch.id, Stretch.text,
    flatten_splitInclusive, List.length_append, Nat.add_assoc]

@[simp] theorem endLast_snoc (stop : Nat) (spans : List Span) (last : Span) :
    endLast stop (spans ++ [last]) = spans ++ [{ last with stop }] := by
  simp [endLast]

variable {stretches : List Stretch}

theorem terminated_joined (wellCut : ∀ stretch ∈ stretches, stretch.WellCut) :
    Terminated (joined stretches) := by
  apply Terminated.flatten
  intro text member
  obtain ⟨stretch, stretchMember, rfl⟩ := List.mem_map.mp member
  exact (wellCut stretch stretchMember).text_ended

theorem foldl_spanStep_joined (total start : Nat)
    (wellCut : ∀ stretch ∈ stretches, stretch.WellCut) :
    (splitInclusive (joined stretches)).foldl (spanStep total) ([], start) =
      (endLast total (spansFrom start stretches), start + (joined stretches).length) := by
  induction stretches using List.reverseRecOn with
  | nil => rfl
  | append_singleton stretches last ih =>
      have earlier : ∀ stretch ∈ stretches, stretch.WellCut := fun stretch member =>
        wellCut stretch (by simp [member])
      have lastText : joined [last] = last.text := by simp [joined]
      rw [joined_append, splitInclusive_append (terminated_joined earlier),
        List.foldl_append, ih earlier, lastText,
        foldl_spanStep_stretch total (wellCut last (by simp)), spansFrom_append]
      simp only [spansFrom, endLast_snoc, List.length_append, Nat.add_assoc, Prod.mk.injEq,
        and_true]
      congr 1
      cases stretches using List.reverseRecOn with
      | nil => rfl
      | append_singleton front previous _ =>
          rw [spansFrom_append]
          simp [spansFrom, Stretch.span, joined, Nat.add_assoc]

variable {title : Text}

theorem threadSpans_joined (ended : Terminated title) (plain : Plain title)
    (wellCut : ∀ stretch ∈ stretches, stretch.WellCut) :
    threadSpans (title ++ joined stretches) = spansFrom title.length stretches := by
  have titleRead := foldl_spanStep_plain (title ++ joined stretches).length plain ([], 0)
  rw [flatten_splitInclusive, Nat.zero_add] at titleRead
  rw [threadSpans, splitInclusive_append ended, List.foldl_append, titleRead,
    foldl_spanStep_joined _ _ wellCut]
  cases stretches using List.reverseRecOn with
  | nil => rfl
  | append_singleton front last _ =>
      rw [spansFrom_append]
      simp [spansFrom, Stretch.span, joined, Nat.add_assoc]

theorem slice_span_body (before after : Text) (stretch : Stretch) :
    slice (before ++ (stretch.text ++ after)) (stretch.span before.length).body
      (stretch.span before.length).stop = stretch.body := by
  have cut := slice_append (before ++ stretch.line) stretch.body after
  simpa [Stretch.text, Stretch.span, Nat.add_assoc] using cut

theorem slice_span_text (before after : Text) (stretch : Stretch) :
    slice (before ++ (stretch.text ++ after)) (stretch.span before.length).start
      (stretch.span before.length).stop = stretch.text :=
  slice_append before stretch.text after

/-- What a function reads of the bodies of the spans, it reads of the
stretches. -/
theorem filterMap_spansFrom {Result : Type} (read : Text → Text → Option Result)
    (before : Text) (stretches : List Stretch) :
    (spansFrom before.length stretches).filterMap (fun span =>
        read span.id (slice (before ++ joined stretches) span.body span.stop)) =
      stretches.filterMap fun stretch => read stretch.id stretch.body := by
  induction stretches generalizing before with
  | nil => rfl
  | cons stretch stretches ih =>
      have tail := ih (before ++ stretch.text)
      have body := slice_span_body before (joined stretches) stretch
      rw [List.append_assoc, List.length_append] at tail
      simp only [spansFrom, joined_cons, List.filterMap_cons, body]
      rw [tail]
      rfl

/-- Each span's id with the text of its whole stretch. -/
def threadTexts (file : Text) : List (Text × Text) :=
  (threadSpans file).map fun span => (span.id, slice file span.start span.stop)

theorem threadTexts_joined (ended : Terminated title) (plain : Plain title)
    (wellCut : ∀ stretch ∈ stretches, stretch.WellCut) :
    threadTexts (title ++ joined stretches) =
      stretches.map fun stretch => (stretch.id, stretch.text) := by
  have cut : ∀ before : Text,
      (spansFrom before.length stretches).map (fun span =>
        (span.id, slice (before ++ joined stretches) span.start span.stop)) =
      stretches.map fun stretch => (stretch.id, stretch.text) := by
    clear wellCut
    intro before
    induction stretches generalizing before with
    | nil => rfl
    | cons stretch stretches ih =>
        have tail := ih (before ++ stretch.text)
        have text := slice_span_text before (joined stretches) stretch
        rw [List.append_assoc, List.length_append] at tail
        simp only [spansFrom, joined_cons, List.map_cons, text]
        rw [tail]
        rfl
  rw [threadTexts, threadSpans_joined ended plain wellCut, cut]

end

/-- A converted text under the yaml block that reads as `entries`. -/
structure IsHistory (text : Text) (entries : List Entry) : Prop where
  ended : Terminated text
  converted : toLf text = text
  plain : Plain text
  reads : readEntries text = entries.map Entry.asRead

/-- Line feeds that end empty lines. -/
def blankLines (count : Nat) : Text := List.replicate count '\n'

section

variable (count : Nat)
include count

theorem splitInclusive_blankLines :
    splitInclusive (blankLines count) = List.replicate count ['\n'] := by
  induction count with
  | zero => rfl
  | succ count ih =>
      rw [blankLines, List.replicate_succ, splitInclusive, if_pos rfl, ← blankLines, ih,
        List.replicate_succ]

theorem terminated_blankLines : Terminated (blankLines count) := by
  intro line member
  rw [splitInclusive_blankLines] at member
  rw [List.eq_of_mem_replicate member]
  exact ⟨[], by simp, rfl⟩

theorem plain_blankLines : Plain (blankLines count) := by
  intro line member
  rw [splitInclusive_blankLines] at member
  rw [List.eq_of_mem_replicate member]
  decide

theorem toLf_blankLines : toLf (blankLines count) = blankLines count := by
  apply toLf_of_no_return
  intro member
  have same := List.eq_of_mem_replicate member
  revert same
  decide

theorem foldl_blankLines (state : List Entry × Nat) :
    (lines (blankLines count)).foldl readLine state = (state.1, state.2 + count) := by
  rw [lines, splitInclusive_blankLines]
  induction count generalizing state with
  | zero => rfl
  | succ count ih =>
      have blank : readLine state (lineBody ['\n']) = (state.1, state.2 + 1) := rfl
      rw [List.replicate_succ, List.map_cons, List.foldl_cons, blank, ih]
      simp [Nat.add_comm, Nat.add_left_comm]

theorem IsHistory.blank : IsHistory (blankLines count) [] where
  ended := terminated_blankLines count
  converted := toLf_blankLines count
  plain := plain_blankLines count
  reads := by rw [readEntries, foldl_blankLines]; rfl

end

variable {text : Text} {entries : List Entry} {yaml : MetaYaml} {wanted : Meta}

theorem IsHistory.append_blank (history : IsHistory text entries) (count : Nat) :
    IsHistory (text ++ blankLines count) entries where
  ended := history.ended.append (terminated_blankLines count)
  converted := by
    rw [toLf_append history.ended, history.converted, toLf_blankLines]
  plain := history.plain.append history.ended (plain_blankLines count)
  reads := by
    rw [readEntries, lines_append history.ended, List.foldl_append, foldl_blankLines]
    exact history.reads

theorem IsHistory.of_append_blank {count : Nat} (ended : Terminated text)
    (history : IsHistory (text ++ blankLines count) entries) :
    IsHistory text entries where
  ended := ended
  converted := by
    have whole := history.converted
    rw [toLf_append ended, toLf_blankLines] at whole
    exact List.append_cancel_right whole
  plain := (history.plain.of_append ended).1
  reads := by
    have whole := history.reads
    rw [readEntries, lines_append ended, List.foldl_append, foldl_blankLines] at whole
    exact whole

theorem plain_renderEntry (entry : Entry) (stamp : IsStamp entry.writtenAt) :
    Plain (renderEntry entry) := by
  have areLines : ∀ line ∈ (entryLines entry).map (· ++ ['\n']), IsLine line := by
    intro line member
    obtain ⟨body, bodyMember, rfl⟩ := List.mem_map.mp member
    exact isLine_snoc (newline_notMem_entryLines entry stamp bodyMember)
  intro line member
  rw [renderEntry_eq, splitInclusive_flatten_of_lines areLines] at member
  obtain ⟨body, bodyMember, rfl⟩ := List.mem_map.mp member
  rcases List.mem_cons.mp bodyMember with rfl | further
  · rintro ⟨rest, whole⟩
    exact Char.noConfusion (List.cons.inj whole).1 (by decide)
  · obtain ⟨given, -, rfl⟩ := List.mem_map.mp further
    rw [furtherLine]
    split
    · decide
    · rintro ⟨rest, whole⟩
      exact absurd (List.cons.inj whole).1 (by decide)

theorem IsHistory.append_entry (history : IsHistory text entries) (entry : Entry)
    (stamp : IsStamp entry.writtenAt) :
    IsHistory (text ++ toLf (renderEntry entry)) (entries ++ [entry]) := by
  have entryEnded := terminated_renderEntry entry stamp
  refine ⟨history.ended.append entryEnded.toLf, ?_, ?_, ?_⟩
  · rw [toLf_append history.ended, history.converted, toLf_toLf entryEnded]
  · exact history.plain.append history.ended ((plain_renderEntry entry stamp).toLf entryEnded)
  · obtain ⟨blanks, folded⟩ := foldl_renderEntry entry stamp
      ((lines text).foldl readLine ([], 0))
    have earlier := history.reads
    rw [readEntries] at earlier
    rw [readEntries, lines_append history.ended, List.foldl_append, folded]
    simp [earlier]

theorem IsHistory.append_entries (history : IsHistory text entries) (more : List Entry)
    (stamps : ∀ entry ∈ more, IsStamp entry.writtenAt) :
    IsHistory (text ++ toLf (more.map renderEntry).flatten) (entries ++ more) := by
  induction more generalizing text entries with
  | nil => simpa using history
  | cons entry more ih =>
      have stamp := stamps entry (by simp)
      have tail := ih (history.append_entry entry stamp) fun other member =>
        stamps other (List.mem_cons_of_mem _ member)
      rw [List.map_cons, List.flatten_cons, toLf_append (terminated_renderEntry entry stamp)]
      simpa using tail

theorem trimNewlines_append_blankLines (text : Text) (count : Nat) :
    trimNewlines (text ++ blankLines count) = trimNewlines text := by
  induction count with
  | zero => simp [blankLines]
  | succ count ih =>
      rw [blankLines, List.replicate_succ', ← List.append_assoc, ← blankLines, trimNewlines,
        trimEndMatches, List.rdropWhile_concat_pos _ _ _ (by decide)]
      exact ih

theorem trimNewlines_snoc (text : Text) {char : Char} (other : char ≠ '\n') :
    trimNewlines (text ++ [char]) = text ++ [char] := by
  simp [trimNewlines, trimEndMatches, other]

theorem exists_blankLines (text : Text) :
    ∃ count, text = trimNewlines text ++ blankLines count ∧
      (trimNewlines text = [] ∨ ∃ front char,
        trimNewlines text = front ++ [char] ∧ char ≠ '\n') := by
  induction text using List.reverseRecOn with
  | nil => exact ⟨0, rfl, Or.inl rfl⟩
  | append_singleton text last ih =>
      by_cases newline : last = '\n'
      · obtain ⟨count, whole, ends⟩ := ih
        have trimmed : trimNewlines (text ++ [last]) = trimNewlines text := by
          rw [newline]
          exact trimNewlines_append_blankLines text 1
        refine ⟨count + 1, ?_, by simpa only [trimmed] using ends⟩
        rw [trimmed, blankLines, List.replicate_succ', ← List.append_assoc, ← blankLines,
          ← whole, newline]
      · rw [trimNewlines_snoc text newline]
        exact ⟨0, by simp [blankLines], Or.inr ⟨text, last, rfl, newline⟩⟩

/-- The text under a line ends in blank lines; what is before them ends with
the line feed that `trimNewlines` takes away too. -/
theorem exists_kept (front : Text) {last : Char} (other : last ≠ '\n') (ended : Terminated text) :
    ∃ kept count, text = kept ++ blankLines count ∧ Terminated kept ∧
      trimNewlines (front ++ [last] ++ ['\n'] ++ text) ++ ['\n'] =
        front ++ [last] ++ ['\n'] ++ kept := by
  obtain ⟨count, whole, ends⟩ := exists_blankLines text
  rcases ends with empty | ⟨start, char, shape, notNewline⟩
  · refine ⟨[], count, by simpa [empty] using whole, terminated_nil, ?_⟩
    have blanks : ['\n'] ++ text = blankLines (count + 1) := by
      rw [whole, empty]
      rfl
    rw [List.append_assoc _ ['\n'], blanks, trimNewlines_append_blankLines,
      trimNewlines_snoc _ other]
    simp
  · cases count with
    | zero =>
        exfalso
        rw [shape, blankLines, List.replicate_zero, List.append_nil] at whole
        rcases terminated_iff_getLast?.mp ended with nothing | newline
        · simp [whole] at nothing
        · rw [whole, List.getLast?_concat, Option.some.injEq] at newline
          exact notNewline newline
    | succ count =>
        refine ⟨trimNewlines text ++ ['\n'], count, ?_, terminated_snoc _, ?_⟩
        · rw [List.append_assoc]
          exact whole
        · have trimmed : trimNewlines (front ++ [last] ++ ['\n'] ++ text) =
              front ++ [last] ++ ['\n'] ++ trimNewlines text := by
            rw [whole, ← List.append_assoc, trimNewlines_append_blankLines, ← whole, shape,
              ← List.append_assoc, trimNewlines_snoc _ notNewline]
          rw [trimmed]
          simp

/-- A line the printer may write above the status: the line of a field, or an
indented or empty line of a string that spans lines. -/
def IsFieldLine (line : Text) : Prop :=
  "section:".toList <+: line ∨ "heading:".toList <+: line ∨ "quote:".toList <+: line ∨
    "occurrence:".toList <+: line ∨ " ".toList <+: line ∨ line = ['\n']

instance (line : Text) : Decidable (IsFieldLine line) :=
  inferInstanceAs (Decidable (_ ∨ _))

def statusLine (status : ThreadStatus) : Text :=
  "status: ".toList ++ status.asStr ++ ['\n']

/-- What is assumed of the YAML library at an anchor: the block is printed field
by field with the status last, strings that span lines indented and carriage
returns escaped, and it reads as what was printed. -/
structure Printed (yaml : MetaYaml) (anchor : Anchor) (fields : Text) : Prop where
  ended : Terminated fields
  noReturn : '\r' ∉ fields
  fieldLines : ∀ line ∈ splitInclusive fields, IsFieldLine line
  toStr : ∀ status, yaml.toStr (metaOf anchor status) = some (fields ++ statusLine status)
  fromStr : ∀ status, yaml.fromStr (fields ++ statusLine status) =
    some (metaOf anchor status)

theorem IsFieldLine.not_prefix {line : Text} (isField : IsFieldLine line) :
    ¬ "## ".toList <+: line ∧ ¬ "```".toList <+: line ∧ ¬ "status:".toList <+: line := by
  have clash : ∀ {left right : Text}, left <+: line → right <+: line →
      left <+: right ∨ right <+: left := fun l r => List.prefix_or_prefix_of_prefix l r
  rcases isField with starts | starts | starts | starts | starts | rfl
  all_goals first
    | decide
    | refine ⟨?_, ?_, ?_⟩ <;> intro other <;>
        exact (by decide : ¬ (_ ∨ _)) (clash starts other)

theorem isLine_statusLine (status : ThreadStatus) : IsLine (statusLine status) := by
  apply isLine_snoc
  cases status <;> decide

theorem statusLine_not_prefix (status : ThreadStatus) :
    ¬ "## ".toList <+: statusLine status ∧ ¬ "```".toList <+: statusLine status := by
  cases status <;> decide

theorem yamlBlockFrom_none (start : Nat) (line : Text) (lines : List Text) :
    yamlBlockFrom start none (line :: lines) =
      yamlBlockFrom (start + line.length)
        (if opensYaml (trimEnd line) then some (start + line.length) else none) lines :=
  rfl

theorem yamlBlockFrom_some (start block : Nat) (line : Text) (lines : List Text) :
    yamlBlockFrom start (some block) (line :: lines) =
      if trimEnd line = "```".toList then some (block, start, start + line.length)
      else yamlBlockFrom (start + line.length) (some block) lines :=
  rfl

variable {fields : List Text}

theorem yamlBlockFrom_fields (start block : Nat)
    (noFence : ∀ line ∈ fields, ¬ "```".toList <+: line) (rest : List Text) :
    yamlBlockFrom start (some block) (fields ++ rest) =
      yamlBlockFrom (start + fields.flatten.length) (some block) rest := by
  induction fields generalizing start with
  | nil => simp
  | cons line fields ih =>
      have notFence : trimEnd line ≠ "```".toList := by
        intro fence
        apply noFence line (by simp)
        rw [← fence]
        exact List.rdropWhile_prefix _ _
      have tail := ih (start + line.length) fun other member =>
        noFence other (List.mem_cons_of_mem _ member)
      rw [List.cons_append, yamlBlockFrom_some, if_neg notFence, tail, List.flatten_cons,
        List.length_append, Nat.add_assoc]

/-- The opening fence under a `##` line. -/
def fence : Text := "\n```yaml\n".toList

def fenceEnd : Text := "```\n".toList

theorem yamlBlock_fenced {block : Text} (ended : Terminated block)
    (noFence : ∀ line ∈ splitInclusive block, ¬ "```".toList <+: line) (tail : Text) :
    yamlBlock (fence ++ (block ++ (fenceEnd ++ tail))) =
      some (fence.length, fence.length + block.length,
        fence.length + block.length + fenceEnd.length) := by
  have opening : splitInclusive (fence ++ (block ++ (fenceEnd ++ tail))) =
      ['\n'] :: "```yaml\n".toList :: splitInclusive (block ++ (fenceEnd ++ tail)) := rfl
  have closing : splitInclusive (fenceEnd ++ tail) = fenceEnd :: splitInclusive tail := rfl
  rw [yamlBlock, opening, splitInclusive_append ended, closing]
  have first : opensYaml (trimEnd ['\n']) = false := rfl
  have second : opensYaml (trimEnd "```yaml\n".toList) = true := by decide
  have last : trimEnd fenceEnd = "```".toList := by decide
  rw [yamlBlockFrom_none, first, if_neg (by decide), yamlBlockFrom_none, second,
    if_pos rfl, yamlBlockFrom_fields _ _ noFence, yamlBlockFrom_some, if_pos last,
    flatten_splitInclusive]
  rfl

section

variable (status : ThreadStatus)
include status

theorem statusLine_value :
    stripPrefix "status:".toList (trimNewlines (statusLine status)) =
      some (' ' :: status.asStr) := by
  cases status <;> decide +kernel

theorem statusLine_noComment : find " #".toList (' ' :: status.asStr) = none := by
  cases status <;> rfl

theorem statusLine_ended : endsWith (statusLine status) ['\n'] = true := by
  cases status <;> rfl

end

theorem statusRewrite_statusLine {before : List Text}
    (reads : yaml.fromStr (before.flatten ++ statusLine wanted.status) = some wanted)
    (old : ThreadStatus) :
    statusRewrite yaml wanted before [] (statusLine old) =
      some (before.flatten ++ statusLine wanted.status) := by
  have shape : ∀ key word : Text, before.flatten ++ key ++ word ++ [] ++ ['\n'] ++
      ([] : List Text).flatten = before.flatten ++ (key ++ word ++ ['\n']) := by
    intro key word
    simp
  have asLine := shape "status: ".toList wanted.status.asStr
  simp only [statusRewrite, statusLine_value, statusLine_noComment, statusLine_ended,
    if_true, Option.bind_eq_bind, Option.bind_some]
  have line : "status: ".toList ++ wanted.status.asStr ++ ['\n'] =
      statusLine wanted.status := rfl
  rw [asLine, line, reads, Option.bind_some, if_pos rfl]

theorem statusRewrite_field {before after : List Text} {line : Text} (isField : IsFieldLine line) :
    statusRewrite yaml wanted before after line = none := by
  have noStatus : stripPrefix "status:".toList (trimNewlines line) = none := by
    rw [stripPrefix_eq_none_iff]
    intro starts
    exact isField.not_prefix.2.2 (starts.trans (List.rdropWhile_prefix _ _))
  rw [statusRewrite, noStatus]
  rfl

theorem withStatusFrom_fields (before : List Text) (areFields : ∀ line ∈ fields, IsFieldLine line)
    (rest : List Text) :
    withStatusFrom yaml wanted before (fields ++ rest) =
      withStatusFrom yaml wanted (before ++ fields) rest := by
  induction fields generalizing before with
  | nil => simp
  | cons line fields ih =>
      rw [List.cons_append, withStatusFrom, statusRewrite_field (areFields line (by simp))]
      simpa using ih (before ++ [line]) fun other member =>
        areFields other (List.mem_cons_of_mem _ member)

theorem withStatus_printed {anchor : Anchor} {fields : Text} (printed : Printed yaml anchor fields)
    (old new : ThreadStatus) :
    withStatus yaml (fields ++ statusLine old) (metaOf anchor old) new =
      some (fields ++ statusLine new) := by
  have pieces : splitInclusive (fields ++ statusLine old) =
      splitInclusive fields ++ [statusLine old] := by
    have alone := splitInclusive_line_append (isLine_statusLine old) []
    rw [List.append_nil] at alone
    rw [splitInclusive_append printed.ended, alone]
    rfl
  have reads : yaml.fromStr ((splitInclusive fields).flatten ++ statusLine new) =
      some (metaOf anchor new) := by
    rw [flatten_splitInclusive]
    exact printed.fromStr new
  have rewritten : statusRewrite yaml (metaOf anchor new) (splitInclusive fields) []
      (statusLine old) = some ((splitInclusive fields).flatten ++ statusLine new) :=
    statusRewrite_statusLine reads old
  have wanted : ({ metaOf anchor old with status := new } : Meta) = metaOf anchor new := rfl
  rw [withStatus, wanted, pieces, withStatusFrom_fields [] printed.fieldLines,
    List.nil_append, withStatusFrom, rewritten, flatten_splitInclusive]

end Crystalline.Threads
