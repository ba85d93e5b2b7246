import Crystalline.Reflection.Baseline
import Crystalline.Reflection.PageLines

/-!
# Edits of id lines

Lifting id lines off, handing them back and minting new ones walk the `##`
headings of a page and decide for each what becomes of the line under it.  The
walk is the same: an edit of the id lines keeps every heading, and the ids a
page carries afterwards are what was decided.
-/

namespace Crystalline.Reflection

open Text

/-- What an edit does about the id of a heading. -/
inductive IdEdit where
  | keep
  /-- The id line goes. -/
  | drop
  /-- A new id line, in place of the one that is there. -/
  | write (id : Text)
  deriving DecidableEq

/-- How an edit decides, from the heading's text and the id it carries. -/
abbrev IdPolicy (State : Type) := State → Text → Option Text → IdEdit × State

def lineFeed : Text := ['\n']

def crlf : Text := ['\r', '\n']

/-- The line ending of an id line written under `line`. -/
def idLineEnding (source line : Text) : Text :=
  if endsWith line crlf then crlf
  else if endsWith line lineFeed then lineFeed
  else if contains source crlf then crlf
  else lineFeed

/-- A heading line with a line ending. -/
def endedLine (source line : Text) : Text :=
  if endsWith line lineFeed then line else line ++ idLineEnding source line

/-- `push_heading_with_id`: the source from `copied` on up to the end of the
heading, and the id line under it. -/
def headingWithId (source : Text) (copied : Nat) (heading : HeadingSpan) (id : Text) : Text :=
  let line := slice source copied heading.lineEnd
  endedLine source line ++ (idLine id ++ idLineEnding source line)

section Policies

variable {State : Type} (policy : IdPolicy State) (source : Text)

/-- The loop over the headings; the source before `copied` is written. -/
def editIdsFrom (state : State) (copied : Nat) : List HeadingSpan → Text
  | [] => source.drop copied
  | heading :: headings =>
      let under := idUnder source heading
      let rest := (under.map Prod.snd).getD heading.lineEnd
      match policy state (trim heading.text) (under.map Prod.fst) with
      | (.keep, state) => editIdsFrom state copied headings
      | (.drop, state) => slice source copied heading.lineEnd ++ editIdsFrom state rest headings
      | (.write id, state) =>
          headingWithId source copied heading id ++ editIdsFrom state rest headings

/-- An edit of the id lines of a page. -/
def editIds (state : State) : Text := editIdsFrom policy source state 0 (levelTwo source)

/-- The edit on the lines of a body; a dropped id line is skipped. -/
def editLines (skip : Bool) (fence : FenceTracker) (state : State) : List Text → List Text
  | [] => []
  | raw :: lines =>
      if skip then editLines false fence state lines
      else
        match twoHeading fence raw with
        | none => raw :: editLines false (nextFence fence raw) state lines
        | some text =>
            let under := lines.head?.bind rawId
            match policy state (trim text) under with
            | (.keep, state) => raw :: editLines false none state lines
            | (.drop, state) => raw :: editLines under.isSome none state lines
            | (.write id, state) =>
                endedLine source raw :: (idLine id ++ idLineEnding source raw) ::
                  editLines under.isSome none state lines

/-- The headings and the ids they carry after the edit. -/
def editedIds (state : State) : List (Text × Option Text) → List (Text × Option Text)
  | [] => []
  | (text, under) :: headings =>
      match policy state text under with
      | (.keep, state) => (text, under) :: editedIds state headings
      | (.drop, state) => (text, none) :: editedIds state headings
      | (.write id, state) => (text, some id) :: editedIds state headings

end Policies

section Endings

variable {line text : Text} {level : Nat}

theorem le_length_of_parseHeading (read : parseHeading line = some (level, text)) :
    level ≤ line.length := by
  rw [parseHeading] at read
  split at read
  · cases read
  · dsimp only at read
    split at read
    · cases read
    · split at read
      · cases read
      · obtain ⟨rfl, -⟩ := Prod.mk.inj (Option.some.inj read)
        have marks := (List.takeWhile_prefix (l := line.drop (indentOf line)) (· == '#')).length_le
        rw [List.length_drop] at marks
        omega

theorem two_le_length {fence : FenceTracker} {raw : Text}
    (found : twoHeading fence raw = some text) : 2 ≤ raw.length := by
  rw [twoHeading] at found
  split at found
  · cases found
  · obtain ⟨⟨level, heading⟩, read, chosen⟩ := Option.bind_eq_some_iff.mp found
    split at chosen
    next two =>
      have marks := le_length_of_parseHeading read
      have shorter := (isPrefix_bareLine raw).length_le
      simp only at two
      omega
    · cases chosen

/-- What a text of at least the pattern's length ends with does not depend on
what stands before it. -/
theorem endsWith_append {pattern raw : Text} (long : pattern.length ≤ raw.length)
    (before : Text) : endsWith (before ++ raw) pattern = endsWith raw pattern := by
  rw [Bool.eq_iff_iff, endsWith_iff, endsWith_iff]
  constructor
  · intro ends
    exact List.suffix_of_suffix_length_le ends (List.suffix_append _ _) long
  · intro ends
    exact ends.trans (List.suffix_append _ _)

theorem slice_self (source : Text) (offset : Nat) : slice source offset offset = [] := by
  rw [slice, List.drop_eq_nil_of_le]
  rw [List.length_take]
  omega

variable {copied : Nat}

theorem slice_extend {source before raw rest : Text} (whole : source = before ++ (raw ++ rest))
    (inside : copied ≤ before.length) :
    slice source copied (before.length + raw.length) =
      slice source copied before.length ++ raw := by
  rw [slice, slice, whole, List.take_length_add_append, List.take_left, List.take_left,
    List.drop_append_of_le_length inside]

theorem idLineEnding_append {raw : Text} (long : 2 ≤ raw.length) (source before : Text) :
    idLineEnding source (before ++ raw) = idLineEnding source raw := by
  have feed : endsWith (before ++ raw) lineFeed = endsWith raw lineFeed := by
    apply endsWith_append
    rw [lineFeed, List.length_singleton]
    omega
  have pair : endsWith (before ++ raw) crlf = endsWith raw crlf := by
    apply endsWith_append
    exact long
  rw [idLineEnding, idLineEnding, pair, feed]

theorem headingWithId_eq {source before raw : Text} {heading : HeadingSpan} {id : Text}
    (line : slice source copied heading.lineEnd = before ++ raw) (long : 2 ≤ raw.length) :
    headingWithId source copied heading id = before ++
      (endedLine source raw ++ (idLine id ++ idLineEnding source raw)) := by
  have feed : endsWith (before ++ raw) lineFeed = endsWith raw lineFeed := by
    apply endsWith_append
    rw [lineFeed, List.length_singleton]
    omega
  rw [headingWithId, line, endedLine, endedLine, idLineEnding_append long, feed]
  split
  · rw [List.append_assoc]
  · rw [List.append_assoc, List.append_assoc, List.append_assoc]

end Endings

section Walk

variable {State : Type} {policy : IdPolicy State} {source : Text}

/-- What an edit writes are section ids, from the states it reaches. -/
structure IdPolicy.Sound (policy : IdPolicy State) (good : State → Prop) : Prop where
  writes : ∀ state text under id later, good state →
    policy state text under = (.write id, later) → isSectionId id = true
  steps : ∀ state text under edit later, good state →
    policy state text under = (edit, later) → good later

/-- The loop over the headings of some lines writes what the edit makes of them,
from any place before them and from behind their first line when that is an id
line. -/
structure Edits (policy : IdPolicy State) (source before : Text) (lines : List Text) : Prop where
  copies : ∀ fence state copied, copied ≤ before.length →
    editIdsFrom policy source state copied (levelTwoFrom fence before.length lines) =
      slice source copied before.length ++ (editLines policy source false fence state lines).flatten
  skips : ∀ state raw rest, lines = raw :: rest → (rawId raw).isSome →
    editIdsFrom policy source state (before.length + raw.length)
        (levelTwoFrom none before.length lines) =
      (editLines policy source true none state lines).flatten

section

variable {lines : List Text} {before : Text} {heading : HeadingSpan}
  (edits : Edits policy source before lines)
include edits

/-- Behind a heading the copying goes on after its id line, if there is one. -/
theorem Edits.behind (whole : source = before ++ lines.flatten)
    (cut : splitInclusive lines.flatten = lines) (ends : heading.lineEnd = before.length)
    (state : State) :
    editIdsFrom policy source state
        (((idUnder source heading).map Prod.snd).getD heading.lineEnd)
        (levelTwoFrom none before.length lines) =
      (editLines policy source (lines.head?.bind rawId).isSome none state lines).flatten := by
  have kept := edits.copies none state before.length (Nat.le_refl _)
  rw [slice_self, List.nil_append] at kept
  rw [@idUnder_eq lines source before heading whole ends cut, ends]
  cases lines with
  | nil => exact kept
  | cons next rest =>
      cases spelled : rawId next with
      | none => simpa [spelled] using kept
      | some id =>
          have gone := edits.skips state next rest rfl (by rw [spelled]; rfl)
          simpa [spelled] using gone

end

/-- A heading's own line, and the lines behind it. -/
theorem Edits.heading {lines : List Text} {before raw text : Text}
    (edits : Edits policy source (before ++ raw) lines)
    (whole : source = (before ++ raw) ++ lines.flatten)
    (cut : splitInclusive lines.flatten = lines) (found : twoHeading none raw = some text)
    (state : State) {copied : Nat} (inside : copied ≤ before.length) :
    editIdsFrom policy source state copied
        (⟨2, text, before.length, before.length + raw.length⟩ ::
          levelTwoFrom none (before.length + raw.length) lines) =
      slice source copied before.length ++
        (editLines policy source false none state (raw :: lines)).flatten := by
  have length : (before ++ raw).length = before.length + raw.length := List.length_append
  have extend : slice source copied (before.length + raw.length) =
      slice source copied before.length ++ raw :=
    slice_extend (by rw [whole, List.append_assoc]) inside
  have carried : (idUnder source ⟨2, text, before.length, before.length + raw.length⟩).map
      Prod.fst = lines.head?.bind rawId := by
    rw [@idUnder_eq lines source (before ++ raw) _ whole length.symm cut]
    cases lines.head? with
    | none => rfl
    | some next => cases spelled : rawId next <;> simp [spelled]
  have behind := @Edits.behind State policy source lines (before ++ raw)
    ⟨2, text, before.length, before.length + raw.length⟩ edits whole cut length.symm
  have copies := fun later => edits.copies none later copied (by omega)
  rw [length] at behind copies
  rw [editLines, found]
  simp only [editIdsFrom, Bool.false_eq_true, if_false]
  rw [carried]
  cases decided : policy state (trim text) (lines.head?.bind rawId) with
  | mk edit later =>
      cases edit with
      | keep =>
          have goes := copies later
          rw [extend] at goes
          simpa using goes
      | drop =>
          change slice source copied (before.length + raw.length) ++
            editIdsFrom policy source later _ _ = _
          rw [behind, extend, List.flatten_cons, List.append_assoc]
      | write id =>
          change headingWithId source copied _ id ++ editIdsFrom policy source later _ _ = _
          rw [behind, headingWithId_eq extend (two_le_length found)]
          simp

/-- The loop over the headings writes the lines the edit makes of the body. -/
theorem editIdsFrom_eq {lines : List Text} {before : Text}
    (whole : source = before ++ lines.flatten) (cut : splitInclusive lines.flatten = lines) :
    Edits policy source before lines := by
  induction lines generalizing before with
  | nil =>
      refine ⟨?_, by simp⟩
      intro fence state copied inside
      rw [List.flatten_nil, List.append_nil] at whole
      simp [levelTwoFrom, headingSpansFrom, editIdsFrom, editLines, slice, whole]
  | cons raw lines induction =>
      have tail := splitInclusive_tail cut
      have shifted : source = (before ++ raw) ++ lines.flatten := by
        rw [whole, List.flatten_cons, List.append_assoc]
      have length : (before ++ raw).length = before.length + raw.length := List.length_append
      have edits := induction shifted tail
      have onward := edits.copies
      rw [length] at onward
      constructor
      · intro fence state copied inside
        rw [levelTwoFrom_cons]
        cases found : twoHeading fence raw with
        | none =>
            have extend : slice source copied (before.length + raw.length) =
                slice source copied before.length ++ raw :=
              slice_extend (by rw [whole, List.flatten_cons]) inside
            have later := onward (nextFence fence raw) state copied (by omega)
            rw [extend] at later
            rw [editLines, found]
            simpa using later
        | some text =>
            obtain ⟨rfl, closed⟩ := twoHeading_closed found
            rw [closed]
            exact edits.heading shifted tail found state inside
      · rintro state other rest same spells
        obtain ⟨rfl, rfl⟩ := List.cons.inj same
        obtain ⟨id, spelled⟩ := Option.isSome_iff_exists.mp spells
        have later := onward none state (before.length + raw.length) (Nat.le_refl _)
        rw [slice_self, List.nil_append] at later
        rw [levelTwoFrom_cons, twoHeading_rawId none spelled, nextFence_rawId spelled, editLines]
        simpa using later

end Walk

section Lines

variable {State : Type} {policy : IdPolicy State} {source raw text id : Text}
  {fence : FenceTracker} {lines : List Text}

theorem idLineEnding_cases (source line : Text) :
    idLineEnding source line = ['\r', '\n'] ∨ idLineEnding source line = ['\n'] := by
  rw [idLineEnding]
  split
  · exact .inl rfl
  · split
    · exact .inr rfl
    · split
      · exact .inl rfl
      · exact .inr rfl

theorem isLine_idLineEnding (absent : '\n' ∉ text) (source line : Text) :
    IsLine (text ++ idLineEnding source line) := by
  rcases idLineEnding_cases source line with ending | ending
  · rw [ending]
    refine ⟨text ++ ['\r'], by simp [absent], by simp⟩
  · rw [ending]
    exact isLine_snoc absent

theorem bareLine_idLineEnding (text source line : Text) :
    bareLine (text ++ idLineEnding source line) = withoutReturns text := by
  rcases idLineEnding_cases source line with ending | ending
  · have shape : text ++ ['\r', '\n'] = (text ++ ['\r']) ++ ['\n'] := by simp
    rw [ending, shape, bareLine_newline, withoutReturns_snoc_return]
  · rw [ending, bareLine_newline]

theorem endsWith_lineFeed (isLine : IsLine raw) : endsWith raw lineFeed = true := by
  obtain ⟨body, -, rfl⟩ := isLine
  exact endsWith_iff.mpr (List.suffix_append _ _)

theorem not_endsWith_lineFeed (absent : '\n' ∉ raw) : endsWith raw lineFeed = false := by
  rw [Bool.eq_false_iff]
  intro ends
  exact absent ((endsWith_iff.mp ends).subset (by simp [lineFeed]))

theorem isLine_endedLine (shape : IsLine raw ∨ '\n' ∉ raw) (source : Text) :
    IsLine (endedLine source raw) := by
  rcases shape with isLine | absent
  · rw [endedLine, if_pos (endsWith_lineFeed isLine)]
    exact isLine
  · rw [endedLine, not_endsWith_lineFeed absent]
    exact isLine_idLineEnding absent source raw

theorem bareLine_endedLine (shape : IsLine raw ∨ '\n' ∉ raw) (source : Text) :
    bareLine (endedLine source raw) = bareLine raw := by
  rcases shape with isLine | absent
  · rw [endedLine, if_pos (endsWith_lineFeed isLine)]
  · rw [endedLine, not_endsWith_lineFeed absent, bareLine_of_not_mem absent]
    exact bareLine_idLineEnding raw source raw

theorem rawId_idLine (valid : isSectionId id = true) (source line : Text) :
    rawId (idLine id ++ idLineEnding source line) = some id := by
  have visible : (idLine id).rdropWhile (fun char => char == '\n' || char == '\r') =
      idLine id := by
    have ends : idClose = " --".toList ++ ['>'] := by decide
    rw [idLine, ends, ← List.append_assoc]
    exact List.rdropWhile_concat_neg _ _ _ (by decide)
  rw [rawId, trimEndMatches]
  rcases idLineEnding_cases source line with ending | ending
  · have shape : idLine id ++ ['\r', '\n'] = (idLine id ++ ['\r']) ++ ['\n'] := by simp
    rw [ending, shape, List.rdropWhile_concat_pos _ _ _ (by decide),
      List.rdropWhile_concat_pos _ _ _ (by decide), visible, parseIdLine_idLine valid]
  · rw [ending, List.rdropWhile_concat_pos _ _ _ (by decide), visible, parseIdLine_idLine valid]

theorem splitInclusive_cons {rest : List Text} (isLine : IsLine raw)
    (cut : splitInclusive rest.flatten = rest) :
    splitInclusive (raw :: rest).flatten = raw :: rest := by
  rw [List.flatten_cons, splitInclusive_line_append isLine, cut]

variable {good : State → Prop}

theorem splitInclusive_editLines (sound : policy.Sound good)
    (cut : splitInclusive lines.flatten = lines) (skip : Bool) (fence : FenceTracker)
    (state : State) (holds : good state) :
    splitInclusive (editLines policy source skip fence state lines).flatten =
      editLines policy source skip fence state lines := by
  induction lines generalizing skip fence state with
  | nil => rfl
  | cons raw lines induction =>
      have tail := splitInclusive_tail cut
      have shape := (@isLine_of_splitInclusive_eq_append _ _ [] _ cut).2
      -- Nothing follows a line without a line feed.
      have kept : ∀ skip fence state, good state →
          splitInclusive (raw :: editLines policy source skip fence state lines).flatten =
            raw :: editLines policy source skip fence state lines := by
        intro skip fence state holds
        rcases shape with isLine | ⟨absent, nonempty, rfl⟩
        · exact splitInclusive_cons isLine (induction tail skip fence state holds)
        · rw [editLines, List.flatten_singleton, splitInclusive_of_not_mem absent nonempty]
      rw [editLines]
      split
      · exact induction tail false fence state holds
      · cases found : twoHeading fence raw with
        | none => exact kept _ _ _ holds
        | some text =>
            dsimp only
            cases decided : policy state (trim text) (lines.head?.bind rawId) with
            | mk edit later =>
                have onward := sound.steps _ _ _ _ _ holds decided
                cases edit with
                | keep => exact kept _ _ _ onward
                | drop => exact kept _ _ _ onward
                | write id =>
                    have valid := sound.writes _ _ _ _ _ holds decided
                    apply splitInclusive_cons
                    · exact isLine_endedLine (shape.imp_right And.left) source
                    · apply splitInclusive_cons
                      · exact isLine_idLineEnding (notMem_idLine valid) source raw
                      · exact induction tail _ _ _ onward

theorem isDelimiter_eq (line : Text) : isDelimiter line = (bareLine line == "---".toList) := rfl

theorem not_isDelimiter_idLine (id source line : Text) :
    isDelimiter (idLine id ++ idLineEnding source line) = false := by
  have ends : idClose = " --".toList ++ ['>'] := by decide
  have kept : withoutReturns (idLine id) = idLine id := by
    rw [idLine, ends, ← List.append_assoc]
    exact withoutReturns_snoc_other _ (by decide)
  rw [isDelimiter_eq, bareLine_idLineEnding, kept, beq_eq_false_iff_ne]
  intro same
  have heads : some '<' = some '-' := congrArg List.head? same
  exact absurd heads (by decide)

theorem twoHeading_congr {other : Text} (same : bareLine other = bareLine raw)
    (fence : FenceTracker) : twoHeading fence other = twoHeading fence raw := by
  rw [twoHeading, twoHeading, same]

theorem not_isDelimiter_of_twoHeading (found : twoHeading fence raw = some text) :
    isDelimiter raw = false := by
  rw [isDelimiter_eq, beq_eq_false_iff_ne]
  intro delimiter
  have nothing : parseHeading "---".toList = none := by decide
  rw [twoHeading, delimiter, nothing] at found
  split at found <;> cases found

theorem isLine_or_of_cut (cut : splitInclusive (raw :: lines).flatten = raw :: lines) :
    IsLine raw ∨ '\n' ∉ raw :=
  (@isLine_of_splitInclusive_eq_append _ _ [] _ cut).2.imp_right And.left

/-- What becomes of the first of the lines. -/
theorem editLines_cons (sound : policy.Sound good) (fence : FenceTracker) {state : State}
    (holds : good state) (raw : Text) (lines : List Text) :
    ∃ line written skip fenceAfter later,
      editLines policy source false fence state (raw :: lines) =
        line :: (written ++ editLines policy source skip fenceAfter later lines) ∧
      (line = raw ∨ (twoHeading fence raw).isSome ∧ line = endedLine source raw) ∧
      (∀ other ∈ written, ∃ id, isSectionId id = true ∧
        other = idLine id ++ idLineEnding source raw) ∧ good later := by
  rw [editLines]
  cases found : twoHeading fence raw with
  | none => exact ⟨raw, [], _, _, _, rfl, .inl rfl, by simp, holds⟩
  | some text =>
      simp only [Bool.false_eq_true, if_false]
      cases decided : policy state (trim text) (lines.head?.bind rawId) with
      | mk edit later =>
          have onward := sound.steps _ _ _ _ _ holds decided
          cases edit with
          | keep => exact ⟨raw, [], _, _, _, rfl, .inl rfl, by simp, onward⟩
          | drop => exact ⟨raw, [], _, _, _, rfl, .inl rfl, by simp, onward⟩
          | write id =>
              have valid := sound.writes _ _ _ _ _ holds decided
              refine ⟨endedLine source raw, [idLine id ++ idLineEnding source raw], _, _, _, rfl,
                .inr ⟨rfl, rfl⟩, ?_, onward⟩
              intro other member
              exact ⟨id, valid, List.mem_singleton.mp member⟩

/-- No edit of the id lines makes a delimiter line. -/
theorem mem_editLines (sound : policy.Sound good) (cut : splitInclusive lines.flatten = lines)
    (skip : Bool) (fence : FenceTracker) (state : State) (holds : good state) :
    ∀ line ∈ editLines policy source skip fence state lines, isDelimiter line = true →
      line ∈ lines := by
  induction lines generalizing skip fence state with
  | nil => simp [editLines]
  | cons raw lines induction =>
      have onward := induction (splitInclusive_tail cut)
      intro line member delimits
      cases skip with
      | true =>
          rw [editLines, if_pos rfl] at member
          exact List.mem_cons_of_mem _ (onward _ _ _ holds line member delimits)
      | false =>
          obtain ⟨first, written, skip, after, later, whole, shape, ids, good⟩ :=
            @editLines_cons _ _ source _ sound fence _ holds raw lines
          rw [whole] at member
          rcases List.mem_cons.mp member with rfl | member
          · rcases shape with rfl | ⟨heading, rfl⟩
            · exact List.mem_cons_self
            · obtain ⟨text, found⟩ := Option.isSome_iff_exists.mp heading
              have plain := not_isDelimiter_of_twoHeading found
              rw [isDelimiter_eq, bareLine_endedLine (isLine_or_of_cut cut)] at delimits
              rw [isDelimiter_eq, delimits] at plain
              cases plain
          · rcases List.mem_append.mp member with member | member
            · obtain ⟨id, valid, rfl⟩ := ids line member
              rw [not_isDelimiter_idLine] at delimits
              cases delimits
            · exact List.mem_cons_of_mem _ (onward _ _ _ good line member delimits)

/-- The id under a heading is not touched by what the edit does further down. -/
theorem head_editLines (cut : splitInclusive lines.flatten = lines) (fence : FenceTracker)
    (state : State) :
    (editLines policy source false fence state lines).head?.bind rawId =
      lines.head?.bind rawId := by
  cases lines with
  | nil => rfl
  | cons raw lines =>
      rw [editLines]
      cases found : twoHeading fence raw with
      | none => rfl
      | some text =>
          have plain : ∀ line, bareLine line = bareLine raw → rawId line = none := by
            intro line same
            cases spelled : rawId line with
            | none => rfl
            | some id =>
                have heading := twoHeading_rawId fence spelled
                rw [twoHeading_congr same, found] at heading
                cases heading
          simp only [Bool.false_eq_true, if_false]
          cases decided : policy state (trim text) (lines.head?.bind rawId) with
          | mk edit later =>
              cases edit with
              | keep => rfl
              | drop => rfl
              | write id =>
                  have ended := bareLine_endedLine (isLine_or_of_cut cut) source
                  simp [plain _ ended, plain raw rfl]

/-- The edit keeps every heading, and what a heading carries afterwards is what
was decided. -/
theorem headingIdsFrom_editLines (sound : policy.Sound good)
    (cut : splitInclusive lines.flatten = lines) (state : State) (holds : good state) :
    (∀ fence, (headingIdsFrom fence (editLines policy source false fence state lines)).map
        Prod.fst = (headingIdsFrom fence lines).map Prod.fst ∧
      ((∀ state text under, (policy state text under).1 ≠ .drop) →
        headingIdsFrom fence (editLines policy source false fence state lines) =
          editedIds policy state (headingIdsFrom fence lines))) ∧
    (∀ raw rest, lines = raw :: rest → (rawId raw).isSome →
      (headingIdsFrom none (editLines policy source true none state lines)).map
        Prod.fst = (headingIdsFrom none lines).map Prod.fst ∧
      ((∀ state text under, (policy state text under).1 ≠ .drop) →
        headingIdsFrom none (editLines policy source true none state lines) =
          editedIds policy state (headingIdsFrom none lines))) := by
  induction lines generalizing state with
  | nil => simp [editLines, headingIdsFrom, editedIds]
  | cons raw lines induction =>
      have tail := splitInclusive_tail cut
      constructor
      · intro fence
        rw [editLines]
        simp only [Bool.false_eq_true, if_false]
        cases found : twoHeading fence raw with
        | none =>
            rw [headingIdsFrom_plain found, headingIdsFrom_plain found]
            exact (induction tail state holds).1 (nextFence fence raw)
        | some text =>
            obtain ⟨rfl, closed⟩ := twoHeading_closed found
            dsimp only
            cases decided : policy state (trim text) (lines.head?.bind rawId) with
            | mk edit later =>
                have onward := sound.steps _ _ _ _ _ holds decided
                have behind : ∀ skip, (skip = true → (lines.head?.bind rawId).isSome) →
                    (headingIdsFrom none (editLines policy source skip none later lines)).map
                        Prod.fst = (headingIdsFrom none lines).map Prod.fst ∧
                      ((∀ state text under, (policy state text under).1 ≠ .drop) →
                        headingIdsFrom none (editLines policy source skip none later lines) =
                          editedIds policy later (headingIdsFrom none lines)) := by
                  intro skip skips
                  cases skip with
                  | false => exact (induction tail later onward).1 none
                  | true =>
                      obtain ⟨next, head, spelled⟩ :=
                        Option.bind_eq_some_iff.mp (Option.some_get (skips rfl)).symm
                      obtain ⟨rest, rfl⟩ := List.head?_eq_some_iff.mp head
                      exact (induction tail later onward).2 next rest rfl (by rw [spelled]; rfl)
                rw [headingIdsFrom_heading found]
                cases edit with
                | keep =>
                    obtain ⟨texts, ids⟩ := behind false (by simp)
                    dsimp only
                    rw [headingIdsFrom_heading found, head_editLines tail]
                    refine ⟨by rw [List.map_cons, List.map_cons, texts], ?_⟩
                    intro keeps
                    rw [ids keeps, editedIds, decided]
                | drop =>
                    obtain ⟨texts, -⟩ := behind (lines.head?.bind rawId).isSome id
                    dsimp only
                    rw [headingIdsFrom_heading found]
                    refine ⟨by rw [List.map_cons, List.map_cons, texts], ?_⟩
                    intro keeps
                    exact absurd (congrArg Prod.fst decided) (keeps _ _ _)
                | write id =>
                    obtain ⟨texts, ids⟩ := behind (lines.head?.bind rawId).isSome fun skips => skips
                    have valid := sound.writes _ _ _ _ _ holds decided
                    have written := rawId_idLine valid source raw
                    have ended := bareLine_endedLine (isLine_or_of_cut cut) source
                    have heading := twoHeading_congr ended none
                    rw [found] at heading
                    dsimp only
                    rw [headingIdsFrom_heading heading, headingIdsFrom_idLine written,
                      List.head?_cons, Option.bind_some, written]
                    refine ⟨by rw [List.map_cons, List.map_cons, texts], ?_⟩
                    intro keeps
                    rw [ids keeps, editedIds, decided]
      · rintro other rest same spells
        obtain ⟨rfl, rfl⟩ := List.cons.inj same
        obtain ⟨id, spelled⟩ := Option.isSome_iff_exists.mp spells
        have onward := (induction tail state holds).1 none
        rw [editLines, if_pos rfl, headingIdsFrom_idLine spelled]
        exact onward

end Lines

section Pages

variable {State : Type} {policy : IdPolicy State} {source : Text}

theorem editIds_eq (policy : IdPolicy State) (source : Text) (state : State) :
    editIds policy source state = source.take (bodyOffset source) ++
      (editLines policy source false none state (bodyLines source)).flatten := by
  have walked := (@editIdsFrom_eq State policy source (bodyLines source)
    (source.take (bodyOffset source)) (take_append_bodyLines source).symm
    (splitInclusive_bodyLines source)).1 none state 0 (Nat.zero_le _)
  rw [take_bodyOffset, slice, List.drop_zero] at walked
  exact walked

variable {good : State → Prop} {state : State}

section

variable (sound : policy.Sound good) (holds : good state)
include sound holds

/-- An edit of the id lines leaves the body where it is. -/
theorem bodyLines_editIds :
    bodyOffset (editIds policy source state) = bodyOffset source ∧
      bodyLines (editIds policy source state) =
        editLines policy source false none state (bodyLines source) := by
  have cut := @splitInclusive_editLines State policy source _ good sound
    (splitInclusive_bodyLines source) false none state holds
  have start : bodyOffset (editIds policy source state) = bodyOffset source := by
    rw [editIds_eq]
    apply bodyOffset_exchange cut
    · intro empty
      rw [empty]
      rfl
    · intro line head delimits
      cases lines : bodyLines source with
      | nil =>
          rw [lines] at head
          cases head
      | cons raw rest =>
          have whole := splitInclusive_bodyLines source
          rw [lines] at head whole
          obtain ⟨first, written, skip, after, later, made, shape, -, -⟩ :=
            @editLines_cons State policy source good sound none state holds raw rest
          rw [made, List.head?_cons, Option.some.injEq] at head
          subst head
          rcases shape with rfl | ⟨heading, rfl⟩
          · rfl
          · obtain ⟨text, found⟩ := Option.isSome_iff_exists.mp heading
            have plain := not_isDelimiter_of_twoHeading found
            rw [isDelimiter_eq, bareLine_endedLine (isLine_or_of_cut whole)] at delimits
            rw [isDelimiter_eq, delimits] at plain
            cases plain
    · intro line member delimits
      cases lines : bodyLines source with
      | nil =>
          rw [lines] at member
          cases member
      | cons raw rest =>
          have whole := splitInclusive_bodyLines source
          rw [lines] at member whole
          obtain ⟨first, written, skip, after, later, made, -, ids, onward⟩ :=
            @editLines_cons State policy source good sound none state holds raw rest
          rw [made, List.tail_cons] at member
          rcases List.mem_append.mp member with member | member
          · obtain ⟨id, -, rfl⟩ := ids line member
            rw [not_isDelimiter_idLine] at delimits
            cases delimits
          · exact mem_editLines sound (splitInclusive_tail whole) _ _ _ onward line member
              delimits
  refine ⟨start, ?_⟩
  have body := @List.drop_left _ (source.take (bodyOffset source))
    (editLines policy source false none state (bodyLines source)).flatten
  rw [take_bodyOffset] at body
  rw [bodyLines, start, editIds_eq, body, cut]

theorem headingIds_texts_editIds :
    (headingIds (editIds policy source state)).map Prod.fst =
      (headingIds source).map Prod.fst := by
  rw [headingIds_eq, headingIds_eq, (bodyLines_editIds sound holds).2]
  exact ((headingIdsFrom_editLines sound (splitInclusive_bodyLines source) state holds).1
    none).1

theorem headingIds_editIds (keeps : ∀ state text under, (policy state text under).1 ≠ .drop) :
    headingIds (editIds policy source state) =
      editedIds policy state (headingIds source) := by
  rw [headingIds_eq, headingIds_eq, (bodyLines_editIds sound holds).2]
  exact ((headingIdsFrom_editLines sound (splitInclusive_bodyLines source) state holds).1
    none).2 keeps

end

end Pages

end Crystalline.Reflection
