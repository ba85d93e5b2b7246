import Crystalline.Reflection.IdEdits

/-!
# Made-up id lines

An id line no heading can carry is taken out: in the run of blank and id-shaped
lines under a `##` heading only the line right under it may stay.  The loop over
the headings walks each run by offsets; read line by line it is a machine whose
state says where in a run it is, and each line's fate hangs on the lines before.
-/

namespace Crystalline.Reflection

open Text

/-- A line without its line ending, as the walk over a run reads it. -/
def unended (raw : Text) : Text :=
  trimEndMatches (fun char => char == '\n' || char == '\r') raw

/-- What an id-shaped line spells, hexadecimal or not. -/
def writtenId (line : Text) : Option Text :=
  ((stripPrefix idOpen (trim line)).bind (stripSuffix "-->".toList)).bind fun inner =>
    if trim inner = [] then none else some (trim inner)

/-- A text with the made-up id lines taken out, and what was taken: the place of
the heading each sat under, and the id it spelled. -/
structure WrittenIds where
  text : Text
  dropped : List (Nat × Text)
  deriving DecidableEq

/-- What the loop has written, up to where it has copied the source, and what it
has taken. -/
structure Dropping where
  out : Text
  copied : Nat
  dropped : List (Nat × Text)

/-- The line is the heading's own id line. -/
def ownIdLine (elsewhere : Text → Bool) (line : Text) : Bool :=
  (parseIdLine line).any fun id => !elsewhere id

/-- How long the first line of a text is. -/
def lineLength (rest : Text) : Nat := ((find ['\n'] rest).map (· + 1)).getD rest.length

theorem lineLength_drop_pos {source : Text} {position : Nat} (inside : position < source.length) :
    0 < lineLength (source.drop position) := by
  rw [lineLength]
  cases find ['\n'] (source.drop position) with
  | none =>
      rw [Option.map_none, Option.getD_none, List.length_drop]
      omega
  | some place => exact Nat.succ_pos place

section Loops

variable (source : Text) (elsewhere : Text → Bool)

/-- The loop over the lines under the heading at `place`. -/
def dropRun (place : Nat) (first afterBlank swallow : Bool) (position : Nat)
    (state : Dropping) : Dropping :=
  if _ : position < source.length then
    let rest := source.drop position
    let length := lineLength rest
    let line := unended (rest.take length)
    if trim line = [] then
      dropRun place false true swallow (position + length)
        (if swallow then { state with copied := position + length } else state)
    else
      match writtenId line with
      | none => state
      | some id =>
          if first && ownIdLine elsewhere line then
            dropRun place false false swallow (position + length) state
          else
            dropRun place false false afterBlank (position + length)
              ⟨state.out ++ slice source state.copied position, position + length,
                state.dropped ++ [(place, id)]⟩
  else state
termination_by source.length - position
decreasing_by
  all_goals
    apply Nat.sub_lt_sub_left ‹position < source.length›
    exact Nat.lt_add_of_pos_right (lineLength_drop_pos ‹position < source.length›)

/-- The loop over the headings. -/
def dropRuns (place : Nat) (state : Dropping) : List HeadingSpan → Dropping
  | [] => state
  | heading :: headings =>
      dropRuns (place + 1)
        (dropRun source elsewhere place true false false heading.lineEnd state) headings

/-- The text in the end, and what was taken. -/
def Dropping.finish (state : Dropping) : WrittenIds :=
  { text := state.out ++ source.drop state.copied, dropped := state.dropped }

/-- `drop_written_ids`. -/
def dropWrittenIds : WrittenIds :=
  (dropRuns source elsewhere 0 ⟨[], 0, []⟩ (levelTwo source)).finish source

end Loops

/-- What becomes of a line. -/
inductive Fate where
  | stays
  /-- A blank line that goes with the id line before it. -/
  | swallowed
  | taken (place : Nat) (id : Text)
  deriving DecidableEq

def Fate.stay : Fate → Bool
  | .stays => true
  | _ => false

/-- What is reported of a line. -/
def Fate.report : Fate → Option (Nat × Text)
  | .taken place id => some (place, id)
  | _ => none

/-- What the walk over a run remembers of its lines. -/
structure RunFlags where
  first : Bool
  afterBlank : Bool
  swallow : Bool
  deriving DecidableEq

/-- Where a line stands: the fence, the `##` headings so far, and the run. -/
structure LineState where
  fence : FenceTracker
  headings : Nat
  run : Option RunFlags

/-- The id an id-shaped line spells. -/
def spelledId (raw : Text) : Option Text := writtenId (unended raw)

/-- A blank or id-shaped line. -/
def isRunLine (raw : Text) : Bool := trim (unended raw) = [] || (spelledId raw).isSome

section Machine

variable (elsewhere : Text → Bool)

/-- The run a line continues. -/
def LineState.continues (state : LineState) (raw : Text) : Option RunFlags :=
  state.run.filter fun _ => isRunLine raw

def fateOf (state : LineState) (raw : Text) : Fate :=
  match state.continues raw with
  | none => .stays
  | some flags =>
      match spelledId raw with
      | none => if flags.swallow then .swallowed else .stays
      | some id =>
          if flags.first && ownIdLine elsewhere (unended raw) then .stays
          else .taken (state.headings - 1) id

/-- The flags after a line of the run. -/
def RunFlags.after (flags : RunFlags) (raw : Text) : RunFlags :=
  match spelledId raw with
  | none => ⟨false, true, flags.swallow⟩
  | some _ =>
      if flags.first && ownIdLine elsewhere (unended raw) then ⟨false, false, flags.swallow⟩
      else ⟨false, false, flags.afterBlank⟩

/-- The state after a line. -/
def LineState.after (state : LineState) (raw : Text) : LineState :=
  match state.continues raw with
  | some flags => { state with run := some (flags.after elsewhere raw) }
  | none =>
      if (twoHeading state.fence raw).isSome then
        ⟨nextFence state.fence raw, state.headings + 1, some ⟨true, false, false⟩⟩
      else ⟨nextFence state.fence raw, state.headings, none⟩

/-- What becomes of each line. -/
def fates (state : LineState) : List Text → List Fate
  | [] => []
  | raw :: lines => fateOf elsewhere state raw :: fates (state.after elsewhere raw) lines

/-- The lines that stay. -/
def stayed (fates : List Fate) (lines : List Text) : List Text :=
  ((lines.zip fates).filter fun entry => entry.2.stay).map Prod.fst

end Machine

section Lines

variable {raw id : Text} {elsewhere : Text → Bool} {source : Text} {lines : List Text}

theorem spelledId_opens (spells : spelledId raw = some id) :
    ∃ after, trim (unended raw) = idOpen ++ after := by
  obtain ⟨inner, opened, -⟩ := Option.bind_eq_some_iff.mp spells
  obtain ⟨after, prefixed, -⟩ := Option.bind_eq_some_iff.mp opened
  exact ⟨after, stripPrefix_eq_some_iff.mp prefixed⟩

theorem spelledId_blank (blank : trim (unended raw) = []) : spelledId raw = none := by
  rw [spelledId, writtenId, blank]
  rfl

section

variable (inRun : isRunLine raw = true)
include inRun

theorem isRunLine_plain :
    fenceMarker (bareLine raw) = none ∧ parseHeading (bareLine raw) = none := by
  apply plain_of_head
  intro char head
  rw [isRunLine, Bool.or_eq_true, decide_eq_true_eq] at inRun
  rcases inRun with blank | spells
  · rw [← unended, blank] at head
    cases head
  · obtain ⟨id, spells⟩ := Option.isSome_iff_exists.mp spells
    obtain ⟨after, opens⟩ := spelledId_opens spells
    rw [← unended, opens] at head
    exact (Option.some.inj head).symm

theorem twoHeading_isRunLine (fence : FenceTracker) : twoHeading fence raw = none := by
  rw [twoHeading, (isRunLine_plain inRun).2]
  split <;> rfl

theorem nextFence_isRunLine : nextFence none raw = none := by
  rw [nextFence, FenceTracker.inFence, (isRunLine_plain inRun).1]

end

theorem lineLength_flatten (cut : splitInclusive (raw :: lines).flatten = raw :: lines) :
    lineLength (raw :: lines).flatten = raw.length := by
  rw [lineLength]
  rcases (@isLine_of_splitInclusive_eq_append _ _ [] _ cut).2 with
    ⟨body, absent, rfl⟩ | ⟨absent, -, rfl⟩
  · rw [List.flatten_cons, List.append_assoc, List.singleton_append, find,
      splitOnce_char_append absent]
    simp
  · rw [List.flatten_cons, List.flatten_nil, List.append_nil, find,
      splitOnce_char_eq_none_iff.mpr absent]
    rfl

/-- What the loop does to its state on a line of a run. -/
def Dropping.line (elsewhere : Text → Bool) (source : Text) (place : Nat) (flags : RunFlags)
    (position : Nat) (raw : Text) (state : Dropping) : Dropping :=
  match spelledId raw with
  | none => if flags.swallow then { state with copied := position + raw.length } else state
  | some id =>
      if flags.first && ownIdLine elsewhere (unended raw) then state
      else ⟨state.out ++ slice source state.copied position, position + raw.length,
        state.dropped ++ [(place, id)]⟩

/-- The loop takes one line of the run after the other. -/
theorem dropRun_cons {before : Text} (whole : source = before ++ (raw :: lines).flatten)
    (cut : splitInclusive (raw :: lines).flatten = raw :: lines) (place : Nat)
    (flags : RunFlags) (state : Dropping) :
    dropRun source elsewhere place flags.first flags.afterBlank flags.swallow before.length
        state =
      if isRunLine raw then
        let later := flags.after elsewhere raw
        dropRun source elsewhere place later.first later.afterBlank later.swallow
          (before.length + raw.length) (state.line elsewhere source place flags before.length raw)
      else state := by
  have nonempty : raw ≠ [] := by
    rcases (@isLine_of_splitInclusive_eq_append _ _ [] _ cut).2 with isLine | ⟨-, nonempty, -⟩
    · exact isLine.ne_nil
    · exact nonempty
  have long := List.length_pos_of_ne_nil nonempty
  have inside : before.length < source.length := by
    rw [whole, List.flatten_cons, List.length_append, List.length_append]
    omega
  have rest : source.drop before.length = (raw :: lines).flatten := by
    rw [whole, List.drop_left]
  have taken : (raw :: lines).flatten.take raw.length = raw := by
    rw [List.flatten_cons, List.take_left]
  rw [dropRun, dif_pos inside]
  simp only [rest, lineLength_flatten cut, taken]
  by_cases blank : trim (unended raw) = []
  · have silent := spelledId_blank blank
    rw [if_pos blank, isRunLine, RunFlags.after, Dropping.line, silent]
    simp [blank]
  · rw [if_neg blank]
    cases spells : writtenId (unended raw) with
    | none =>
        have silent : spelledId raw = none := spells
        rw [isRunLine, silent]
        simp [blank]
    | some id =>
        have spelled : spelledId raw = some id := spells
        rw [isRunLine, RunFlags.after, Dropping.line, spelled]
        cases flags.first && ownIdLine elsewhere (unended raw) <;> simp

/-- The loop can go on at a position: it has copied no further, and after a line
that goes it is right there. -/
structure Dropping.Ready (state : Dropping) (flags : RunFlags) (position : Nat) : Prop where
  copied : state.copied ≤ position
  swallow : flags.swallow = true → state.copied = position
  first : flags.first = true → flags.swallow = false

/-- What is written once the source up to a position is copied. -/
def Dropping.upTo (source : Text) (position : Nat) (state : Dropping) : Text :=
  state.out ++ slice source state.copied position

variable {state : Dropping} {before rest : Text} {flags : RunFlags}

theorem Dropping.upTo_extend (whole : source = before ++ (raw ++ rest))
    (copied : state.copied ≤ before.length) :
    state.upTo source (before.length + raw.length) = state.upTo source before.length ++ raw := by
  rw [Dropping.upTo, slice_extend whole copied, Dropping.upTo, List.append_assoc]

/-- A line of a run: the state goes on, and what is written and reported is the
line's fate. -/
theorem Dropping.Ready.line (ready : state.Ready flags before.length)
    (whole : source = before ++ (raw ++ rest)) (inRun : isRunLine raw = true) (place : Nat) :
    let fate := fateOf elsewhere ⟨none, place + 1, some flags⟩ raw
    let later := state.line elsewhere source place flags before.length raw
    later.Ready (flags.after elsewhere raw) (before.length + raw.length) ∧
      later.upTo source (before.length + raw.length) =
        state.upTo source before.length ++ (if fate.stay then raw else []) ∧
      later.dropped = state.dropped ++ fate.report.toList := by
  have continues : (LineState.mk none (place + 1) (some flags)).continues raw = some flags := by
    simp [LineState.continues, inRun]
  have kept := Dropping.upTo_extend whole ready.copied
  have copied := ready.copied
  simp only [fateOf, continues, RunFlags.after, Dropping.line]
  cases spelled : spelledId raw with
  | none =>
      cases swallow : flags.swallow with
      | false =>
          refine ⟨⟨by simp; omega, by simp, by simp⟩, ?_, by simp [Fate.report]⟩
          simpa [Fate.stay] using kept
      | true =>
          have here := ready.swallow swallow
          refine ⟨⟨by simp, by simp, by simp⟩, ?_, by simp [Fate.report]⟩
          simp [Dropping.upTo, here, slice_self, Fate.stay]
  | some id =>
      cases own : flags.first && ownIdLine elsewhere (unended raw) with
      | true =>
          have unset := ready.first (Bool.and_eq_true_iff.mp own).1
          refine ⟨⟨by simp; omega, by simp [unset], by simp⟩, ?_, by simp [Fate.report]⟩
          simpa [Fate.stay] using kept
      | false =>
          refine ⟨⟨by simp, by simp, by simp⟩, ?_, by simp [Fate.report]⟩
          simp [Dropping.upTo, slice_self, Fate.stay]

variable {state : LineState}

theorem fateOf_outside (outside : state.continues raw = none) :
    fateOf elsewhere state raw = .stays := by
  rw [fateOf, outside]

theorem after_outside (outside : state.continues raw = none) :
    state.after elsewhere raw =
      if (twoHeading state.fence raw).isSome then
        ⟨nextFence state.fence raw, state.headings + 1, some ⟨true, false, false⟩⟩
      else ⟨nextFence state.fence raw, state.headings, none⟩ := by
  rw [LineState.after, outside]

theorem after_inside (inside : state.continues raw = some flags) :
    state.after elsewhere raw =
      { state with run := some (flags.after elsewhere raw) } := by
  rw [LineState.after, inside]

theorem stayed_cons (fate : Fate) (rest : List Fate) :
    (stayed (fate :: rest) (raw :: lines)).flatten =
      (if fate.stay then raw else []) ++ (stayed rest lines).flatten := by
  rw [stayed, List.zip_cons_cons, List.filter_cons]
  cases fate.stay <;> rfl

/-- What the loop makes of some lines, behind what is written and taken. -/
def Dropping.expected (elsewhere : Text → Bool) (source : Text) (position : Nat)
    (lineState : LineState) (lines : List Text) (state : Dropping) : WrittenIds :=
  { text := state.upTo source position ++
      (stayed (fates elsewhere lineState lines) lines).flatten
    dropped := state.dropped ++ (fates elsewhere lineState lines).filterMap Fate.report }

/-- The loop over the headings does to the lines what the machine does. -/
theorem dropRuns_eq {before : Text} (whole : source = before ++ lines.flatten)
    (cut : splitInclusive lines.flatten = lines) :
    (∀ fence count state, state.copied ≤ before.length →
      (dropRuns source elsewhere count state
        (levelTwoFrom fence before.length lines)).finish source =
          state.expected elsewhere source before.length ⟨fence, count, none⟩ lines) ∧
    (∀ flags place state, state.Ready flags before.length →
      (dropRuns source elsewhere (place + 1)
        (dropRun source elsewhere place flags.first flags.afterBlank flags.swallow before.length
          state) (levelTwoFrom none before.length lines)).finish source =
          state.expected elsewhere source before.length ⟨none, place + 1, some flags⟩ lines) := by
  induction lines generalizing before with
  | nil =>
      rw [List.flatten_nil, List.append_nil] at whole
      subst whole
      have drained : ∀ (state : Dropping) lineState, state.finish source =
          state.expected elsewhere source source.length lineState [] := by
        intro state lineState
        simp [Dropping.finish, Dropping.expected, Dropping.upTo, slice, stayed, fates]
      refine ⟨fun _ _ state _ => drained state _, ?_⟩
      intro flags place state _
      rw [dropRun, dif_neg (Nat.lt_irrefl _)]
      exact drained state _
  | cons raw lines induction =>
      have tail := splitInclusive_tail cut
      have shifted : source = (before ++ raw) ++ lines.flatten := by
        rw [whole, List.flatten_cons, List.append_assoc]
      have length : (before ++ raw).length = before.length + raw.length := List.length_append
      obtain ⟨onward, running⟩ := induction shifted tail
      rw [length] at onward running
      rw [List.flatten_cons] at whole
      -- A line that continues no run stays, and may be a heading.
      have plain : ∀ lineState state, lineState.continues raw = none →
          state.copied ≤ before.length →
          (dropRuns source elsewhere lineState.headings state
            (levelTwoFrom lineState.fence before.length (raw :: lines))).finish source =
              state.expected elsewhere source before.length lineState (raw :: lines) := by
        intro lineState state outside copied
        have kept := Dropping.upTo_extend whole copied
        rw [Dropping.expected, fates, fateOf_outside outside, after_outside outside, stayed_cons,
          levelTwoFrom_cons]
        cases found : twoHeading lineState.fence raw with
        | none =>
            have later := onward (nextFence lineState.fence raw) lineState.headings state
              (by omega)
            simp only [Option.map_none, Option.toList_none, List.nil_append, later,
              Dropping.expected, kept, Option.isSome_none]
            simp only [Fate.stay, List.append_assoc]
            rfl
        | some text =>
            have later := running ⟨true, false, false⟩ lineState.headings state
              ⟨by omega, by simp, by simp⟩
            simp only [Option.map_some, Option.toList_some, List.singleton_append, dropRuns,
              (twoHeading_closed found).2, later, Dropping.expected, kept, Option.isSome_some]
            simp only [Fate.stay, List.append_assoc]
            rfl
      constructor
      · intro fence count state copied
        exact plain ⟨fence, count, none⟩ state rfl copied
      · intro flags place state ready
        have step := @dropRun_cons raw elsewhere source lines before
          (by rw [whole, List.flatten_cons]) cut place flags state
        rw [step]
        cases inRun : isRunLine raw with
        | false =>
            have outside : (LineState.mk none (place + 1) (some flags)).continues raw = none := by
              simp [LineState.continues, inRun]
            exact plain ⟨none, place + 1, some flags⟩ state outside ready.copied
        | true =>
            have inside : (LineState.mk none (place + 1) (some flags)).continues raw =
                some flags := by
              simp [LineState.continues, inRun]
            obtain ⟨later, written, reported⟩ := ready.line whole inRun place
            rw [levelTwoFrom_cons, twoHeading_isRunLine inRun, nextFence_isRunLine inRun]
            simp only [if_true, Option.map_none, Option.toList_none, List.nil_append]
            rw [running _ place _ later, Dropping.expected, written, reported,
              Dropping.expected, fates, after_inside inside, stayed_cons, List.append_assoc,
              List.append_assoc]
            congr 2
            cases fateOf elsewhere ⟨none, place + 1, some flags⟩ raw <;> rfl

theorem dropWrittenIds_eq (source : Text) (elsewhere : Text → Bool) :
    dropWrittenIds source elsewhere =
      { text := source.take (bodyOffset source) ++
          (stayed (fates elsewhere ⟨none, 0, none⟩ (bodyLines source))
            (bodyLines source)).flatten
        dropped := (fates elsewhere ⟨none, 0, none⟩ (bodyLines source)).filterMap
          Fate.report } := by
  have walked := (@dropRuns_eq elsewhere source (bodyLines source)
    (source.take (bodyOffset source)) (take_append_bodyLines source).symm
    (splitInclusive_bodyLines source)).1 none 0 ⟨[], 0, []⟩ (Nat.zero_le _)
  rw [take_bodyOffset] at walked
  rw [dropWrittenIds, levelTwo_eq, walked, Dropping.expected, Dropping.upTo, slice]
  simp

end Lines

section Places

variable {raw id : Text} {elsewhere : Text → Bool} {before run : List Text}

/-- A blank line. -/
def isBlankLine (raw : Text) : Bool := trim (unended raw) = []

/-- The lines end in a `##` heading outside fences and a run of blank and id-shaped
lines under it. -/
def InRun (before run : List Text) : Prop :=
  ∃ top heading, before = top ++ heading :: run ∧
    (twoHeading (fenceAfter none top) heading).isSome ∧ ∀ line ∈ run, isRunLine line = true

/-- A run ends in an id-shaped line after a blank one, and blank lines. -/
def AfterTaken (run : List Text) : Prop :=
  ∃ earlier blank written blanks, run = earlier ++ blank :: written :: blanks ∧
    isBlankLine blank = true ∧ (spelledId written).isSome ∧
    ∀ line ∈ blanks, isBlankLine line = true

/-- The flags after the lines of a run. -/
def flagsOf (elsewhere : Text → Bool) (run : List Text) : RunFlags :=
  run.foldl (RunFlags.after elsewhere) ⟨true, false, false⟩

theorem isBlankLine_of_spelledId (inRun : isRunLine raw = true) (silent : spelledId raw = none) :
    isBlankLine raw = true := by
  rw [isRunLine, silent] at inRun
  simpa [isBlankLine] using inRun

theorem spelledId_of_isBlankLine (blank : isBlankLine raw = true) : spelledId raw = none :=
  spelledId_blank (by simpa [isBlankLine] using blank)

theorem not_isBlankLine_of_spelledId (spelled : spelledId raw = some id) :
    isBlankLine raw = false := by
  cases blank : isBlankLine raw with
  | false => rfl
  | true =>
      rw [spelledId_of_isBlankLine blank] at spelled
      cases spelled

theorem flagsOf_concat (run : List Text) (raw : Text) :
    flagsOf elsewhere (run ++ [raw]) = (flagsOf elsewhere run).after elsewhere raw := by
  rw [flagsOf, List.foldl_concat, flagsOf]

theorem RunFlags.after_first (flags : RunFlags) (raw : Text) :
    (flags.after elsewhere raw).first = false := by
  rw [RunFlags.after]
  split
  · rfl
  · split <;> rfl

theorem flagsOf_first : (flagsOf elsewhere run).first = true ↔ run = [] := by
  induction run using List.reverseRecOn with
  | nil => simp [flagsOf]
  | append_singleton run raw _ => simp [flagsOf_concat, RunFlags.after_first]

theorem flagsOf_afterBlank (every : ∀ line ∈ run, isRunLine line = true) :
    (flagsOf elsewhere run).afterBlank = true ↔
      ∃ earlier blank, run = earlier ++ [blank] ∧ isBlankLine blank = true := by
  induction run using List.reverseRecOn with
  | nil => simp [flagsOf]
  | append_singleton run raw _ =>
      have inRun := every raw (by simp)
      rw [flagsOf_concat, RunFlags.after]
      cases spelled : spelledId raw with
      | none => simpa using isBlankLine_of_spelledId inRun spelled
      | some id =>
          have visible := not_isBlankLine_of_spelledId spelled
          simp only
          split <;> simp [visible]

theorem afterTaken_blank (blank : isBlankLine raw = true) :
    AfterTaken (run ++ [raw]) ↔ AfterTaken run := by
  constructor
  · rintro ⟨earlier, first, written, blanks, whole, isBlank, spelled, every⟩
    cases blanks using List.reverseRecOn with
    | nil =>
        have shape : earlier ++ first :: written :: [] = (earlier ++ [first]) ++ [written] := by
          simp
        rw [shape] at whole
        obtain ⟨-, same⟩ := List.append_inj' whole rfl
        obtain rfl := (List.cons.inj same).1
        rw [spelledId_of_isBlankLine blank] at spelled
        cases spelled
    | append_singleton blanks last =>
        have shape : earlier ++ first :: written :: (blanks ++ [last]) =
            (earlier ++ first :: written :: blanks) ++ [last] := by simp
        rw [shape] at whole
        exact ⟨earlier, first, written, blanks, (List.append_inj' whole rfl).1, isBlank, spelled,
          fun line member => every line (List.mem_append_left _ member)⟩
  · rintro ⟨earlier, first, written, blanks, rfl, isBlank, spelled, every⟩
    refine ⟨earlier, first, written, blanks ++ [raw], by simp, isBlank, spelled, ?_⟩
    intro line member
    rcases List.mem_append.mp member with member | member
    · exact every line member
    · rw [List.mem_singleton.mp member]
      exact blank

theorem afterTaken_spelled (spelled : spelledId raw = some id) :
    AfterTaken (run ++ [raw]) ↔
      ∃ earlier blank, run = earlier ++ [blank] ∧ isBlankLine blank = true := by
  constructor
  · rintro ⟨earlier, first, written, blanks, whole, isBlank, -, every⟩
    cases blanks using List.reverseRecOn with
    | nil =>
        have shape : earlier ++ first :: written :: [] = (earlier ++ [first]) ++ [written] := by
          simp
        rw [shape] at whole
        exact ⟨earlier, first, (List.append_inj' whole rfl).1, isBlank⟩
    | append_singleton blanks last =>
        have shape : earlier ++ first :: written :: (blanks ++ [last]) =
            (earlier ++ first :: written :: blanks) ++ [last] := by simp
        rw [shape] at whole
        obtain ⟨-, same⟩ := List.append_inj' whole rfl
        obtain rfl := (List.cons.inj same).1
        have blank := every raw (by simp)
        rw [not_isBlankLine_of_spelledId spelled] at blank
        cases blank
  · rintro ⟨earlier, blank, rfl, isBlank⟩
    exact ⟨earlier, blank, raw, [], by simp, isBlank, by rw [spelled]; rfl, by simp⟩

theorem flagsOf_swallow (every : ∀ line ∈ run, isRunLine line = true) :
    (flagsOf elsewhere run).swallow = true ↔ AfterTaken run := by
  induction run using List.reverseRecOn with
  | nil => simp [flagsOf, AfterTaken]
  | append_singleton run raw induction =>
      have inRun := every raw (by simp)
      have before : ∀ line ∈ run, isRunLine line = true :=
        fun line member => every line (List.mem_append_left _ member)
      rw [flagsOf_concat, RunFlags.after]
      cases spelled : spelledId raw with
      | none =>
          rw [afterTaken_blank (isBlankLine_of_spelledId inRun spelled), ← induction before]
      | some id =>
          rw [afterTaken_spelled spelled, ← @flagsOf_afterBlank elsewhere run before]
          simp only
          split
          next own =>
            -- The heading's own line is the first of its run.
            have first := flagsOf_first.mp (Bool.and_eq_true_iff.mp own).1
            subst first
            rfl
          · rfl

/-- What the machine's state says of the lines before. -/
structure LineState.Stands (elsewhere : Text → Bool) (before : List Text) (state : LineState) :
    Prop where
  fence : state.fence = fenceAfter none before
  headings : state.headings = (levelTwoFrom none 0 before).length
  inside : ∀ flags, state.run = some flags → ∃ run, InRun before run ∧
    flags = flagsOf elsewhere run
  outside : state.run = none → ∀ run, ¬ InRun before run

section

variable (inRun : InRun before run)
include inRun

theorem fenceAfter_inRun : fenceAfter none before = none := by
  obtain ⟨top, heading, rfl, found, every⟩ := inRun
  obtain ⟨text, found⟩ := Option.isSome_iff_exists.mp found
  rw [fenceAfter_append, fenceAfter_cons, (twoHeading_closed found).2]
  clear found
  induction run with
  | nil => rfl
  | cons raw run induction =>
      rw [fenceAfter_cons, nextFence_isRunLine (every raw List.mem_cons_self)]
      exact induction fun line member => every line (List.mem_cons_of_mem _ member)

theorem headings_inRun : 0 < (levelTwoFrom none 0 before).length := by
  obtain ⟨top, heading, rfl, found, -⟩ := inRun
  obtain ⟨text, found⟩ := Option.isSome_iff_exists.mp found
  rw [levelTwoFrom_append, levelTwoFrom_cons, found, List.length_append, List.length_append,
    Option.map_some, Option.toList_some, List.length_singleton]
  omega

theorem InRun.concat (more : isRunLine raw = true) : InRun (before ++ [raw]) (run ++ [raw]) := by
  obtain ⟨top, heading, rfl, found, every⟩ := inRun
  refine ⟨top, heading, by simp, found, ?_⟩
  intro line member
  rcases List.mem_append.mp member with member | member
  · exact every line member
  · rw [List.mem_singleton.mp member]
    exact more

end

theorem inRun_concat (inRun : InRun (before ++ [raw]) run) :
    (run = [] ∧ (twoHeading (fenceAfter none before) raw).isSome) ∨
      ∃ earlier, run = earlier ++ [raw] ∧ InRun before earlier ∧ isRunLine raw = true := by
  obtain ⟨top, heading, whole, found, every⟩ := inRun
  cases run using List.reverseRecOn with
  | nil =>
      obtain ⟨rfl, same⟩ := List.append_inj' whole rfl
      obtain rfl := (List.cons.inj same).1
      exact .inl ⟨rfl, found⟩
  | append_singleton earlier last =>
      have shape : top ++ heading :: (earlier ++ [last]) =
          (top ++ heading :: earlier) ++ [last] := by simp
      rw [shape] at whole
      obtain ⟨rfl, same⟩ := List.append_inj' whole rfl
      obtain rfl := (List.cons.inj same).1
      exact .inr ⟨earlier, rfl, ⟨top, heading, rfl, found,
        fun line member => every line (List.mem_append_left _ member)⟩, every raw (by simp)⟩

theorem length_levelTwoFrom_concat (before : List Text) (raw : Text) :
    (levelTwoFrom none 0 (before ++ [raw])).length = (levelTwoFrom none 0 before).length +
      if (twoHeading (fenceAfter none before) raw).isSome then 1 else 0 := by
  have last : ∀ fence offset, (levelTwoFrom fence offset [raw]).length =
      if (twoHeading fence raw).isSome then 1 else 0 := by
    intro fence offset
    rw [levelTwoFrom_cons]
    cases twoHeading fence raw <;> simp [levelTwoFrom, headingSpansFrom]
  rw [levelTwoFrom_append, List.length_append, last]

theorem fenceAfter_concat (fence : FenceTracker) (before : List Text) (raw : Text) :
    fenceAfter fence (before ++ [raw]) = nextFence (fenceAfter fence before) raw := by
  rw [fenceAfter_append, fenceAfter_cons, fenceAfter_nil]

variable {state : LineState}

theorem LineState.Stands.after (stands : state.Stands elsewhere before) (raw : Text) :
    (state.after elsewhere raw).Stands elsewhere (before ++ [raw]) := by
  cases continues : state.continues raw with
  | some flags =>
      obtain ⟨running, more⟩ := Option.filter_eq_some_iff.mp continues
      obtain ⟨run, inRun, rfl⟩ := stands.inside flags running
      have closed := fenceAfter_inRun inRun
      rw [after_inside continues]
      refine ⟨?_, ?_, ?_, by simp⟩
      · rw [fenceAfter_concat, stands.fence, closed, nextFence_isRunLine more]
      · rw [length_levelTwoFrom_concat, twoHeading_isRunLine more, stands.headings]
        rfl
      · intro flags same
        refine ⟨run ++ [raw], inRun.concat more, ?_⟩
        rw [flagsOf_concat]
        exact (Option.some.inj same).symm
  | none =>
      rw [after_outside continues]
      cases found : (twoHeading state.fence raw).isSome with
      | true =>
          rw [if_pos rfl]
          refine ⟨?_, ?_, ?_, by simp⟩
          · rw [fenceAfter_concat, stands.fence]
          · rw [length_levelTwoFrom_concat, ← stands.fence, found, stands.headings]
            rfl
          · intro flags same
            rw [stands.fence] at found
            refine ⟨[], ⟨before, raw, rfl, found, by simp⟩, ?_⟩
            exact (Option.some.inj same).symm
      | false =>
          rw [if_neg (by simp)]
          refine ⟨?_, ?_, by simp, ?_⟩
          · rw [fenceAfter_concat, stands.fence]
          · rw [length_levelTwoFrom_concat, ← stands.fence, found, stands.headings]
            rfl
          · intro _ run inRun
            rcases inRun_concat inRun with ⟨-, heading⟩ | ⟨earlier, -, inRun, more⟩
            · rw [← stands.fence, found] at heading
              cases heading
            · cases running : state.run with
              | none => exact stands.outside running earlier inRun
              | some flags =>
                  have on : state.continues raw = some flags := by
                    rw [LineState.continues, running, Option.filter_some, if_pos more]
                  rw [on] at continues
                  cases continues

theorem stands_foldl (elsewhere : Text → Bool) (before : List Text) :
    (before.foldl (LineState.after elsewhere) ⟨none, 0, none⟩).Stands elsewhere before := by
  induction before using List.reverseRecOn with
  | nil =>
      refine ⟨rfl, rfl, by simp, ?_⟩
      rintro - run ⟨top, heading, whole, -⟩
      simp at whole
  | append_singleton before raw induction =>
      rw [List.foldl_concat]
      exact induction.after raw

/-- What a line's fate says of the lines before it. -/
def Fate.Of (elsewhere : Text → Bool) (before : List Text) (raw : Text) : Fate → Prop
  | .stays => ∀ run, InRun before run →
      (isBlankLine raw = true → ¬ AfterTaken run) ∧
        ((spelledId raw).isSome → run = [] ∧ ownIdLine elsewhere (unended raw) = true)
  | .swallowed => ∃ run, InRun before run ∧ isBlankLine raw = true ∧ AfterTaken run
  | .taken place id => ∃ run, InRun before run ∧ spelledId raw = some id ∧
      ¬ (run = [] ∧ ownIdLine elsewhere (unended raw) = true) ∧
      place + 1 = (levelTwoFrom none 0 before).length

theorem inRun_unique {other : List Text} (first : InRun before run) (second : InRun before other) :
    run = other := by
  induction before using List.reverseRecOn generalizing run other with
  | nil =>
      obtain ⟨top, heading, whole, -⟩ := first
      simp at whole
  | append_singleton before raw induction =>
      have never : (twoHeading (fenceAfter none before) raw).isSome → isRunLine raw = true →
          False := by
        intro heading more
        rw [twoHeading_isRunLine more] at heading
        cases heading
      rcases inRun_concat first with ⟨rfl, heading⟩ | ⟨earlier, rfl, inRun, more⟩
      · rcases inRun_concat second with ⟨rfl, -⟩ | ⟨-, -, -, more⟩
        · rfl
        · exact (never heading more).elim
      · rcases inRun_concat second with ⟨-, heading⟩ | ⟨later, rfl, alike, -⟩
        · exact (never heading more).elim
        · rw [induction inRun alike]

theorem LineState.Stands.fateOf (stands : state.Stands elsewhere before) (raw : Text) :
    (fateOf elsewhere state raw).Of elsewhere before raw := by
  rw [Reflection.fateOf]
  cases continues : state.continues raw with
  | none =>
      intro run inRun
      have ends : isRunLine raw = false := by
        cases more : isRunLine raw with
        | false => rfl
        | true =>
            cases running : state.run with
            | none => exact (stands.outside running run inRun).elim
            | some flags =>
                rw [LineState.continues, running, Option.filter_some, if_pos more] at continues
                cases continues
      rw [isRunLine, Bool.or_eq_false_iff] at ends
      refine ⟨fun blank => ?_, fun spelled => ?_⟩
      · rw [isBlankLine, ends.1] at blank
        cases blank
      · rw [ends.2] at spelled
        cases spelled
  | some flags =>
      obtain ⟨running, more⟩ := Option.filter_eq_some_iff.mp continues
      obtain ⟨run, inRun, rfl⟩ := stands.inside flags running
      have every : ∀ line ∈ run, isRunLine line = true := inRun.choose_spec.choose_spec.2.2
      have swallow := @flagsOf_swallow elsewhere run every
      simp only
      cases spelled : spelledId raw with
      | none =>
          have blank := isBlankLine_of_spelledId more spelled
          simp only
          split
          next set => exact ⟨run, inRun, blank, swallow.mp set⟩
          next unset =>
            intro other alike
            rw [inRun_unique alike inRun, spelled]
            exact ⟨fun _ taken => unset (swallow.mpr taken), by simp⟩
      | some id =>
          have visible := not_isBlankLine_of_spelledId spelled
          simp only
          split
          next own =>
            obtain ⟨first, own⟩ := Bool.and_eq_true_iff.mp own
            intro other alike
            rw [inRun_unique alike inRun, visible]
            exact ⟨by simp, fun _ => ⟨flagsOf_first.mp first, own⟩⟩
          next other =>
            refine ⟨run, inRun, spelled, ?_, ?_⟩
            · rintro ⟨first, own⟩
              exact other (Bool.and_eq_true_iff.mpr ⟨flagsOf_first.mpr first, own⟩)
            · have above := headings_inRun inRun
              rw [stands.headings]
              omega

end Places

section Again

variable {raw : Text} {elsewhere : Text → Bool} {lines : List Text} {source : Text}

theorem length_fates (state : LineState) (lines : List Text) :
    (fates elsewhere state lines).length = lines.length := by
  induction lines generalizing state with
  | nil => rfl
  | cons raw lines induction => rw [fates, List.length_cons, induction, List.length_cons]

theorem fates_getElem (state : LineState) (before : List Text) (raw : Text) (after : List Text) :
    (fates elsewhere state (before ++ raw :: after))[before.length]? =
      some (fateOf elsewhere (before.foldl (LineState.after elsewhere) state) raw) := by
  induction before generalizing state with
  | nil => rfl
  | cons first before induction =>
      rw [List.cons_append, fates, List.length_cons, List.getElem?_cons_succ, induction,
        List.foldl_cons]

theorem stayed_cons_eq (fate : Fate) (rest : List Fate) :
    stayed (fate :: rest) (raw :: lines) =
      if fate.stay then raw :: stayed rest lines else stayed rest lines := by
  rw [stayed, List.zip_cons_cons, List.filter_cons]
  cases fate.stay <;> rfl

theorem splitInclusive_stayed (cut : splitInclusive lines.flatten = lines) (fates : List Fate) :
    splitInclusive (stayed fates lines).flatten = stayed fates lines := by
  induction lines generalizing fates with
  | nil => simp [stayed, splitInclusive]
  | cons raw lines induction =>
      cases fates with
      | nil => simp [stayed, splitInclusive]
      | cons fate rest =>
          have onward := induction (splitInclusive_tail cut) rest
          rw [stayed_cons_eq]
          split
          · rcases (@isLine_of_splitInclusive_eq_append _ _ [] _ cut).2 with
              isLine | ⟨absent, nonempty, rfl⟩
            · exact splitInclusive_cons isLine onward
            · rw [stayed, List.zip_nil_left, List.filter_nil, List.map_nil,
                List.flatten_singleton, splitInclusive_of_not_mem absent nonempty]
          · exact onward

/-- The page as it is left, beside the page it was made of: the same fence, and in a
run no line to go. -/
structure LineState.Settles (state settled : LineState) : Prop where
  fence : settled.fence = state.fence
  run : (state.run = none ∧ settled.run = none) ∨ ∃ flags left, state.run = some flags ∧
    settled.run = some left ∧ left.swallow = false ∧ (flags.first = true → left.first = true)

/-- Of the lines that stay, all stay. -/
theorem fates_stayed {state settled : LineState} (settles : state.Settles settled) :
    ∀ fate ∈ fates elsewhere settled (stayed (fates elsewhere state lines) lines),
      fate = .stays := by
  induction lines generalizing state settled with
  | nil => simp [stayed, fates]
  | cons raw lines induction =>
      rw [fates, stayed_cons_eq]
      -- The first line stays, and the rest is settled behind it.
      have kept : fateOf elsewhere settled raw = .stays →
          (state.after elsewhere raw).Settles (settled.after elsewhere raw) →
          ∀ fate ∈ fates elsewhere settled
            (raw :: stayed (fates elsewhere (state.after elsewhere raw) lines) lines),
              fate = .stays := by
        intro stays onward fate member
        rw [fates] at member
        rcases List.mem_cons.mp member with rfl | member
        · exact stays
        · exact induction onward fate member
      cases continues : state.continues raw with
      | none =>
          have alike : settled.continues raw = none := by
            rw [LineState.continues] at continues ⊢
            rcases settles.run with ⟨-, outside⟩ | ⟨flags, left, running, same, -, -⟩
            · rw [outside, Option.filter_none]
            · rw [running, Option.filter_some] at continues
              rw [same, Option.filter_some]
              split at continues
              · cases continues
              next ends => rw [if_neg ends]
          rw [fateOf_outside continues, Fate.stay, if_pos rfl]
          apply kept (fateOf_outside alike)
          rw [after_outside continues, after_outside alike, settles.fence]
          cases (twoHeading state.fence raw).isSome with
          | true => exact ⟨rfl, .inr ⟨_, _, rfl, rfl, rfl, fun _ => rfl⟩⟩
          | false => exact ⟨rfl, .inl ⟨rfl, rfl⟩⟩
      | some flags =>
          obtain ⟨running, more⟩ := Option.filter_eq_some_iff.mp continues
          rcases settles.run with ⟨outside, -⟩ | ⟨same, left, held, alike, unset, first⟩
          · rw [outside] at running
            cases running
          · rw [held] at running
            cases running
            have on : settled.continues raw = some left := by
              rw [LineState.continues, alike, Option.filter_some, if_pos more]
            -- A line that goes leaves the settled page where it is.
            have gone : ∀ fate ∈ fates elsewhere settled
                (stayed (fates elsewhere (state.after elsewhere raw) lines) lines),
                  fate = .stays := by
              apply induction
              rw [after_inside continues]
              refine ⟨settles.fence, .inr ⟨_, left, rfl, alike, unset, ?_⟩⟩
              rw [RunFlags.after_first]
              simp
            have stays : fateOf elsewhere settled raw = .stays →
                (left.after elsewhere raw).swallow = false →
                ∀ fate ∈ fates elsewhere settled
                  (raw :: stayed (fates elsewhere (state.after elsewhere raw) lines) lines),
                    fate = .stays := by
              intro staying clear
              apply kept staying
              rw [after_inside continues, after_inside on]
              refine ⟨settles.fence, .inr ⟨_, _, rfl, rfl, clear, ?_⟩⟩
              rw [RunFlags.after_first]
              simp
            rw [fateOf, continues]
            cases spelled : spelledId raw with
            | none =>
                simp only
                split
                · exact gone
                · apply stays
                  · simp [fateOf, on, spelled, unset]
                  · rw [RunFlags.after, spelled]
                    exact unset
            | some id =>
                simp only
                split
                next own =>
                  obtain ⟨isFirst, isOwn⟩ := Bool.and_eq_true_iff.mp own
                  apply stays
                  · simp [fateOf, on, spelled, first isFirst, isOwn]
                  · simp [RunFlags.after, spelled, first isFirst, isOwn, unset]
                · exact gone

theorem stayed_of_all {fates : List Fate} (every : ∀ fate ∈ fates, fate = .stays)
    (lengths : fates.length = lines.length) :
    stayed fates lines = lines ∧ fates.filterMap Fate.report = [] := by
  induction lines generalizing fates with
  | nil =>
      rw [List.length_nil, List.length_eq_zero_iff] at lengths
      subst lengths
      exact ⟨rfl, rfl⟩
  | cons raw lines induction =>
      cases fates with
      | nil => cases lengths
      | cons fate rest =>
          obtain rfl := every fate List.mem_cons_self
          obtain ⟨same, silent⟩ := induction
            (fun other member => every other (List.mem_cons_of_mem _ member))
            (Nat.succ.inj lengths)
          refine ⟨?_, ?_⟩
          · rw [stayed_cons_eq, Fate.stay, if_pos rfl, same]
          · exact silent

/-- The body is where it was, and its lines are those that stay. -/
theorem bodyLines_dropWrittenIds (source : Text) (elsewhere : Text → Bool) :
    bodyOffset (dropWrittenIds source elsewhere).text = bodyOffset source ∧
      bodyLines (dropWrittenIds source elsewhere).text =
        stayed (fates elsewhere ⟨none, 0, none⟩ (bodyLines source)) (bodyLines source) := by
  have cut := splitInclusive_stayed (splitInclusive_bodyLines source)
    (fates elsewhere ⟨none, 0, none⟩ (bodyLines source))
  have sublist : ∀ (fates : List Fate) (lines : List Text),
      ∀ line ∈ stayed fates lines, line ∈ lines := by
    intro fates lines line member
    obtain ⟨entry, inside, rfl⟩ := List.mem_map.mp member
    exact (List.of_mem_zip (List.mem_filter.mp inside).1).1
  have text : (dropWrittenIds source elsewhere).text = source.take (bodyOffset source) ++
      (stayed (fates elsewhere ⟨none, 0, none⟩ (bodyLines source))
        (bodyLines source)).flatten := by
    rw [dropWrittenIds_eq]
  have start : bodyOffset (dropWrittenIds source elsewhere).text = bodyOffset source := by
    rw [text]
    apply bodyOffset_exchange cut
    · intro empty
      rw [empty]
      rfl
    · intro line head _
      cases lines : bodyLines source with
      | nil =>
          rw [lines] at head
          cases head
      | cons raw rest =>
          rw [lines, fates, stayed_cons_eq] at head
          exact head
    · intro line member _
      cases lines : bodyLines source with
      | nil =>
          rw [lines] at member
          cases member
      | cons raw rest =>
          rw [lines, fates, stayed_cons_eq] at member
          exact sublist _ _ line member
  refine ⟨start, ?_⟩
  have body := @List.drop_left _ (source.take (bodyOffset source))
    (stayed (fates elsewhere ⟨none, 0, none⟩ (bodyLines source)) (bodyLines source)).flatten
  rw [take_bodyOffset] at body
  rw [bodyLines, start, text, body, cut]

theorem dropWrittenIds_idem (source : Text) (elsewhere : Text → Bool) :
    dropWrittenIds (dropWrittenIds source elsewhere).text elsewhere =
      ⟨(dropWrittenIds source elsewhere).text, []⟩ := by
  obtain ⟨-, lines⟩ := bodyLines_dropWrittenIds source elsewhere
  have every := @fates_stayed elsewhere (bodyLines source) ⟨none, 0, none⟩ ⟨none, 0, none⟩
    ⟨rfl, .inl ⟨rfl, rfl⟩⟩
  rw [← lines] at every
  obtain ⟨same, silent⟩ := stayed_of_all every (length_fates _ _)
  rw [dropWrittenIds_eq (dropWrittenIds source elsewhere).text, same, silent, take_append_bodyLines]

/-- Which lines go: in the run under a `##` heading, every id-shaped line but the
heading's own right under it, and the blank lines behind one that came after a
blank line. -/
theorem dropWrittenIds_fates (source : Text) (elsewhere : Text → Bool) :
    ∃ fates : List Fate, fates.length = (bodyLines source).length ∧
      (∀ before raw after fate, bodyLines source = before ++ raw :: after →
        fates[before.length]? = some fate → fate.Of elsewhere before raw) ∧
      dropWrittenIds source elsewhere =
        { text := source.take (bodyOffset source) ++ (stayed fates (bodyLines source)).flatten
          dropped := fates.filterMap Fate.report } ∧
      dropWrittenIds (dropWrittenIds source elsewhere).text elsewhere =
        ⟨(dropWrittenIds source elsewhere).text, []⟩ := by
  refine ⟨fates elsewhere ⟨none, 0, none⟩ (bodyLines source), length_fates _ _, ?_,
    dropWrittenIds_eq source elsewhere, dropWrittenIds_idem source elsewhere⟩
  intro before raw after fate whole found
  rw [whole, fates_getElem] at found
  cases found
  exact (stands_foldl elsewhere before).fateOf raw

end Again

end Crystalline.Reflection
