import Crystalline.Collab.Rows
import Crystalline.Reflection.Sections

/-!
# Two readings of fenced code

The parser, the heading walker and the link rewriters track fences with one tracker; the
merge of table rows has its own reading.  They part where a line of backticks has a
backtick in its info string, which is code in a line to the merge and opens a fence for
the tracker.
-/

namespace Crystalline.Collab

open Text Reflection

/-- The lines `FenceTracker::in_fence` flags, from a state of the tracker on. -/
def trackedFrom (tracker : FenceTracker) : List Text → List Bool
  | [] => []
  | line :: lines => (tracker.inFence line).1 :: trackedFrom (tracker.inFence line).2 lines

/-- The tracker after some lines. -/
def trackerAfter (tracker : FenceTracker) (lines : List Text) : FenceTracker :=
  lines.foldl (fun tracker line => (tracker.inFence line).2) tracker

/-- A trimmed line that starts with a run a fence can have. -/
def IsMarker (trimmed : Text) : Prop := 3 ≤ runOf '\x60' trimmed ∨ 3 ≤ runOf '~' trimmed

/-- A marker behind less than four bytes of blanks, none of them a tab, stands
behind spaces alone. -/
def PlainIndent (line : Text) : Prop :=
  IsMarker (trim line) → byteLen (line.takeWhile isWhitespace) < 4 →
    '\t' ∉ line.takeWhile isWhitespace → ∀ char ∈ line.takeWhile isWhitespace, char = ' '

/-- A line that starts with a run of backticks and has another one behind the run. -/
def IsCodeSpanLine (line : Text) : Prop :=
  indentOf line ≤ 3 ∧ 3 ≤ runOf '\x60' (trim line) ∧
    '\x60' ∈ (trim line).drop (runOf '\x60' (trim line))

instance (trimmed : Text) : Decidable (IsMarker trimmed) :=
  inferInstanceAs (Decidable (_ ∨ _))

instance (line : Text) : Decidable (PlainIndent line) :=
  haveI : Decidable (∀ char ∈ line.takeWhile isWhitespace, char = ' ') := List.decidableBAll _ _
  inferInstanceAs (Decidable (_ → _ → _ → ∀ char ∈ line.takeWhile isWhitespace, char = ' '))

instance (line : Text) : Decidable (IsCodeSpanLine line) :=
  inferInstanceAs (Decidable (_ ∧ _))

variable {char : Char} {line : Text} {fence : Fence}

theorem runOf_append {front back : Text} (stop : back.head? ≠ some char) :
    runOf char (front ++ back) = runOf char front := by
  induction front with
  | nil =>
      cases back with
      | nil => rfl
      | cons first back =>
          have other : first ≠ char := fun same => stop (congrArg some same)
          rw [runOf, List.nil_append, List.takeWhile_cons_of_neg (by simpa using other)]
          rfl
  | cons first front induction =>
      rw [List.cons_append, runOf, runOf, List.takeWhile_cons, List.takeWhile_cons]
      split
      · exact congrArg (· + 1) induction
      · rfl

theorem runOf_le (char : Char) (text : Text) : runOf char text ≤ text.length :=
  (List.takeWhile_prefix _).length_le

theorem head?_of_runOf {text : Text} (run : 0 < runOf char text) : text.head? = some char := by
  cases text with
  | nil => exact absurd run (Nat.lt_irrefl 0)
  | cons first text =>
      by_cases same : first = char
      · rw [same]
        rfl
      · rw [runOf, List.takeWhile_cons_of_neg (by simpa using same)] at run
        exact absurd run (Nat.lt_irrefl 0)

/-- A line between its blanks. -/
structure Parts (line lead trail : Text) : Prop where
  lead_blank : IsBlank lead
  trail_blank : IsBlank trail
  line_eq : line = lead ++ (trim line ++ trail)
  start_eq : trimStart line = trim line ++ trail
  lead_eq : line.takeWhile isWhitespace = lead

theorem exists_parts (line : Text) : ∃ lead trail, Parts line lead trail := by
  obtain ⟨trail, blank, split⟩ := exists_trail (trimStart line)
  have whole : line.takeWhile isWhitespace ++ trimStart line = line :=
    List.takeWhile_append_dropWhile
  refine ⟨line.takeWhile isWhitespace, trail, ?_, blank, ?_, split, rfl⟩
  · exact fun _ member => List.mem_takeWhile_imp member
  · rw [trim, ← split, whole]

theorem Parts.runOf_start {line lead trail : Text} (parts : Parts line lead trail)
    (solid : isWhitespace char = false) : runOf char (trimStart line) = runOf char (trim line) := by
  rw [parts.start_eq]
  apply runOf_append
  intro head
  have blank := parts.trail_blank char (List.mem_of_mem_head? head)
  rw [solid] at blank
  cases blank

theorem parts_of_spaces {line front back : Text} (split : line = front ++ back)
    (spaces : ∀ char ∈ front, char = ' ') {first : Char} (head : back.head? = some first)
    (solid : isWhitespace first = false) :
    indentOf line = front.length ∧ line.takeWhile isWhitespace = front ∧ trimStart line = back := by
  obtain ⟨rest, rfl⟩ : ∃ rest, back = first :: rest := List.head?_eq_some_iff.mp head
  have blank : ∀ char ∈ front, isWhitespace char = true := by
    intro char member
    rw [spaces char member]
    decide
  have space : (first == ' ') = false := by
    rw [beq_eq_false_iff_ne]
    rintro rfl
    exact absurd solid (by decide)
  rw [split, indentOf, trimStart, trimStartMatches,
    List.takeWhile_append_of_pos (by simpa using spaces), List.takeWhile_append_of_pos blank,
    List.dropWhile_append_of_pos blank, List.takeWhile_cons_of_neg (by simp [space]),
    List.takeWhile_cons_of_neg (by simp [solid]), List.dropWhile_cons_of_neg (by simp [solid]),
    List.append_nil]
  exact ⟨rfl, rfl, rfl⟩

theorem solid_of_marker (marker : char = '\x60' ∨ char = '~') : isWhitespace char = false := by
  rcases marker with rfl | rfl <;> decide

theorem byteLen_spaces {spaces : Text} (all : ∀ char ∈ spaces, char = ' ') :
    byteLen spaces = spaces.length := by
  induction spaces with
  | nil => rfl
  | cons char spaces induction =>
      rw [byteLen_cons, all char List.mem_cons_self,
        induction fun other member => all other (List.mem_cons_of_mem _ member)]
      exact Nat.add_comm 1 spaces.length

/-- The marker the tracker reads on a line is the run the merge reads, behind spaces. -/
theorem fenceMarker_eq_some {count indent : Nat}
    (read : fenceMarker line = some (char, count, indent)) :
    (char = '\x60' ∨ char = '~') ∧ 3 ≤ count ∧ runOf char (trim line) = count ∧
      indentOf line ≤ 3 ∧ indentAllowsFence line = true := by
  rw [fenceMarker] at read
  split at read
  · cases read
  next small =>
    split at read
    · cases read
    next first rest ahead =>
      split at read
      · cases read
      next marker =>
        dsimp only at read
        split at read
        · cases read
        next long =>
          obtain ⟨rfl, counted⟩ := Prod.mk.inj (Option.some.inj read)
          obtain ⟨rfl, rfl⟩ := Prod.mk.inj counted
          have isMarker : first = '\x60' ∨ first = '~' := by
            simpa [or_iff_not_imp_left] using marker
          have spaces : ∀ char ∈ line.takeWhile (· == ' '), char = ' ' := by
            intro char member
            simpa using List.mem_takeWhile_imp member
          have split : line = line.takeWhile (· == ' ') ++ (first :: rest) := by
            have front := List.prefix_iff_eq_take.mp (List.takeWhile_prefix (l := line) (· == ' '))
            rw [← ahead, front]
            exact (List.take_append_drop _ line).symm
          obtain ⟨-, lead, start⟩ := parts_of_spaces split spaces rfl (solid_of_marker isMarker)
          obtain ⟨before, trail, parts⟩ := exists_parts line
          refine ⟨isMarker, by omega, ?_, by omega, ?_⟩
          · rw [← parts.runOf_start (solid_of_marker isMarker), start]
            rfl
          · have size := byteLen_spaces spaces
            rw [indentAllowsFence, lead, size, Bool.and_eq_true, decide_eq_true_eq]
            rw [indentOf] at small
            refine ⟨?_, by omega⟩
            rw [Bool.not_eq_true', List.contains_eq_mem, decide_eq_false_iff_not]
            intro tab
            exact absurd (spaces '\t' tab) (by decide)

/-- A run the merge reads, behind spaces, is a marker of the tracker. -/
theorem fenceMarker_of_run (marker : char = '\x60' ∨ char = '~') (long : 3 ≤ runOf char (trim line))
    (allowed : indentAllowsFence line = true) (plain : PlainIndent line) :
    fenceMarker line = some (char, runOf char (trim line), indentOf line) := by
  obtain ⟨before, trail, parts⟩ := exists_parts line
  rw [indentAllowsFence, Bool.and_eq_true, decide_eq_true_eq] at allowed
  have isMarker : IsMarker (trim line) := by
    rcases marker with rfl | rfl
    · exact .inl long
    · exact .inr long
  have spaces : ∀ char ∈ line.takeWhile isWhitespace, char = ' ' :=
    plain isMarker allowed.2 (by simpa using allowed.1)
  have run := parts.runOf_start (solid_of_marker marker)
  have head : (trimStart line).head? = some char := head?_of_runOf (by omega)
  have split : line = line.takeWhile isWhitespace ++ trimStart line :=
    List.takeWhile_append_dropWhile.symm
  obtain ⟨indent, -, -⟩ := parts_of_spaces split spaces head (solid_of_marker marker)
  have small : indentOf line ≤ 3 := by
    have size := byteLen_spaces spaces
    omega
  have ahead : line.drop (indentOf line) = trimStart line := by
    rw [indent]
    exact congrArg (List.drop _) split |>.trans List.drop_left
  obtain ⟨rest, start⟩ := List.head?_eq_some_iff.mp head
  rw [fenceMarker, if_neg (by omega), ahead, start]
  have known : (decide (char ≠ '\x60') && decide (char ≠ '~')) = false := by
    rcases marker with rfl | rfl <;> decide
  have count : ((char :: rest).takeWhile (· == char)).length = runOf char (trim line) := by
    rw [← run, start]
    rfl
  simp only [known, count]
  rw [if_neg Bool.false_ne_true, if_neg (by omega)]

variable {trimmed : Text}

theorem opens_eq_some_iff :
    Fence.opens trimmed = some fence ↔
      (fence.char = '\x60' ∨ fence.char = '~') ∧ 3 ≤ fence.len ∧
        runOf fence.char trimmed = fence.len ∧
          ¬ (fence.char = '\x60' ∧ '\x60' ∈ trimmed.drop fence.len) := by
  constructor
  · intro opened
    rw [Fence.opens] at opened
    split at opened
    · cases opened
    next char head =>
      split at opened
      next marker =>
        dsimp only at opened
        split at opened
        next long =>
          obtain rfl := Option.some.inj opened
          obtain ⟨enough, noTick⟩ := Bool.and_eq_true_iff.mp long
          refine ⟨by simpa using marker, of_decide_eq_true enough, rfl, ?_⟩
          simpa only [not_and, Bool.not_eq_true', Bool.and_eq_false_imp, decide_eq_true_eq,
            List.contains_eq_mem, decide_eq_false_iff_not] using noTick
        · cases opened
      · cases opened
  · rintro ⟨marker, long, run, plain⟩
    obtain ⟨char, len⟩ := fence
    simp only at marker long run plain
    have head : trimmed.head? = some char := head?_of_runOf (by omega)
    rw [Fence.opens, head]
    simp [marker, run, long]
    simpa using plain

theorem opens_eq_fenceMarker (plain : PlainIndent line) (noSpan : ¬ IsCodeSpanLine line) :
    ((Fence.opens (trim line)).filter fun _ => indentAllowsFence line).map
        (fun fence => (fence.char, fence.len)) =
      (fenceMarker line).map fun marker => (marker.1, marker.2.1) := by
  cases read : fenceMarker line with
  | some marker =>
      obtain ⟨char, count, indent⟩ := marker
      obtain ⟨known, long, run, small, allowed⟩ := fenceMarker_eq_some read
      have opened : Fence.opens (trim line) = some ⟨char, count⟩ := by
        refine opens_eq_some_iff.mpr ⟨known, long, run, ?_⟩
        rintro ⟨rfl, inside⟩
        exact noSpan ⟨small, by omega, by rwa [run]⟩
      rw [opened, Option.filter_some, allowed]
      rfl
  | none =>
      rw [Option.map_none, Option.map_eq_none_iff, Option.filter_eq_none_iff]
      intro fence opened allowed
      obtain ⟨known, long, run, -⟩ := opens_eq_some_iff.mp opened
      rw [fenceMarker_of_run known (by omega) allowed plain] at read
      cases read

theorem byteLen_of_run (narrow : char.utf8Size = 1) {text : Text}
    (all : runOf char text = text.length) : byteLen text = text.length := by
  have whole : text.takeWhile (· = char) = text :=
    (List.takeWhile_prefix _).eq_of_length all
  have same := List.takeWhile_eq_self_iff.mp whole
  clear all whole
  induction text with
  | nil => rfl
  | cons first text induction =>
      have here : first = char := by simpa using same first List.mem_cons_self
      rw [byteLen_cons, here, narrow,
        induction fun other member => same other (List.mem_cons_of_mem _ member)]
      exact Nat.add_comm 1 text.length

theorem length_le_byteLen (text : Text) : text.length ≤ byteLen text := by
  induction text with
  | nil => exact Nat.le_refl 0
  | cons char text induction =>
      have positive := char.utf8Size_pos
      rw [byteLen_cons, List.length_cons]
      omega

/-- What stands behind the run is blank exactly when the run is the whole trimmed line. -/
theorem closed_iff (marker : char = '\x60' ∨ char = '~') :
    trim ((trimStart line).drop (runOf char (trim line))) = [] ↔
      runOf char (trim line) = byteLen (trim line) := by
  obtain ⟨lead, trail, parts⟩ := exists_parts line
  have inside := runOf_le char (trim line)
  rw [parts.start_eq, List.drop_append_of_le_length inside]
  constructor
  · intro empty
    have behind : (trim line).drop (runOf char (trim line)) = [] := by
      by_contra more
      obtain ⟨front, last, same⟩ := (List.eq_nil_or_concat _).resolve_left more
      have final : (trim line).getLast? = some last := by
        rw [← List.take_append_drop (runOf char (trim line)) (trim line), same]
        simp
      have solid := (isTrimmed_trim line).last last final
      have white := trim_eq_nil_iff.mp empty last (by simp [same])
      rw [solid] at white
      cases white
    have whole : runOf char (trim line) = (trim line).length := by
      have rest := List.drop_eq_nil_iff.mp behind
      omega
    have narrow : char.utf8Size = 1 := by
      rcases marker with rfl | rfl <;> rfl
    rw [byteLen_of_run narrow whole, whole]
  · intro all
    have size := length_le_byteLen (trim line)
    rw [List.drop_eq_nil_of_le (by omega), List.nil_append]
    exact trim_eq_nil_iff.mpr parts.trail_blank

/-- A fence as the merge opens them. -/
def Fence.Known (fence : Fence) : Prop :=
  (fence.char = '\x60' ∨ fence.char = '~') ∧ 3 ≤ fence.len

/-- The same fence, to the tracker. -/
def tracked (fence : Option Fence) : FenceTracker := fence.map fun fence => (fence.char, fence.len)

theorem inFence_outside (plain : PlainIndent line) (noSpan : ¬ IsCodeSpanLine line)
    {opened : Option Fence}
    (read : ((Fence.opens (trim line)).filter fun _ => indentAllowsFence line) = opened) :
    FenceTracker.inFence none line = (opened.isSome, tracked opened) := by
  have same := opens_eq_fenceMarker plain noSpan
  rw [read] at same
  rw [FenceTracker.inFence]
  cases marker : fenceMarker line with
  | none =>
      rw [marker, Option.map_none, Option.map_eq_none_iff] at same
      rw [same]
      rfl
  | some found =>
      rw [marker] at same
      cases opened with
      | none => cases same
      | some fence =>
          rw [tracked, same]
          rfl

theorem inFence_closes {len count indent : Nat}
    (read : fenceMarker line = some (char, count, indent)) (enough : len ≤ count)
    (behind : trim ((trimStart line).drop count) = []) :
    FenceTracker.inFence (some (char, len)) line = (true, none) := by
  simp [FenceTracker.inFence, read, enough, behind]

theorem inFence_stays {len : Nat}
    (open_ : ∀ count indent, fenceMarker line = some (char, count, indent) → len ≤ count →
      trim ((trimStart line).drop count) ≠ []) :
    FenceTracker.inFence (some (char, len)) line = (true, some (char, len)) := by
  rw [FenceTracker.inFence]
  cases read : fenceMarker line with
  | none => rfl
  | some found =>
      obtain ⟨other, count, indent⟩ := found
      refine if_neg ?_
      intro closes
      simp only [Bool.and_eq_true, decide_eq_true_eq] at closes
      obtain ⟨⟨rfl, enough⟩, behind⟩ := closes
      exact open_ count indent read enough behind

theorem inFence_inside (plain : PlainIndent line) (known : fence.Known) :
    FenceTracker.inFence (tracked (some fence)) line =
      (true, tracked (if indentAllowsFence line && fence.closes (trim line) then none
        else some fence)) := by
  obtain ⟨marker, long⟩ := known
  split
  next closes =>
    rw [Bool.and_eq_true, Fence.closes, Bool.and_eq_true, decide_eq_true_eq,
      decide_eq_true_eq] at closes
    obtain ⟨allowed, enough, all⟩ := closes
    exact inFence_closes (fenceMarker_of_run marker (by omega) allowed plain) enough
      ((closed_iff marker).mpr all)
  next stays =>
    refine inFence_stays ?_
    intro count indent read enough behind
    obtain ⟨-, -, rfl, -, allowed⟩ := fenceMarker_eq_some read
    have all := (closed_iff marker).mp behind
    refine stays ?_
    rw [allowed, Fence.closes, decide_eq_true enough, decide_eq_true all]
    rfl

theorem known_of_opens {allowed : Bool}
    (opened : ((Fence.opens trimmed).filter fun _ => allowed) = some fence) : fence.Known := by
  obtain ⟨marker, long, -⟩ := opens_eq_some_iff.mp (Option.filter_eq_some_iff.mp opened).1
  exact ⟨marker, long⟩

theorem walkRows_fenced {lines : List Text} : ∀ {fence : Option Fence} (inTable : Bool),
    (∀ opened, fence = some opened → opened.Known) →
    (∀ raw ∈ lines, PlainIndent (lineText raw)) →
    (∀ before raw after, lines = before ++ raw :: after → IsCodeSpanLine (lineText raw) →
      trackerAfter (tracked fence) (before.map lineText) ≠ none) →
    (walkRows fence inTable lines).map Prod.snd =
      trackedFrom (tracked fence) (lines.map lineText) := by
  induction lines with
  | nil => exact fun _ _ _ _ => rfl
  | cons raw lines induction =>
      intro fence inTable known plain spans
      have here := plain raw List.mem_cons_self
      have later : ∀ raw ∈ lines, PlainIndent (lineText raw) := fun other member =>
        plain other (List.mem_cons_of_mem _ member)
      have onward {next : Option Fence} (inTable : Bool)
          (valid : ∀ opened, next = some opened → opened.Known)
          (step : (FenceTracker.inFence (tracked fence) (lineText raw)).2 = tracked next) :
          (walkRows next inTable lines).map Prod.snd =
            trackedFrom (tracked next) (lines.map lineText) := by
        refine induction inTable valid later ?_
        intro before other after split span
        have inside := spans (raw :: before) other after (by rw [split]; rfl) span
        rwa [List.map_cons, trackerAfter, List.foldl_cons, step] at inside
      rw [List.map_cons, trackedFrom]
      cases fence with
      | some opened =>
          have step := inFence_inside here (known opened rfl)
          rw [walkRows, step]
          refine congrArg (true :: ·) (onward inTable ?_ (by rw [step]))
          intro other same
          split at same
          · cases same
          · exact known other same
      | none =>
          have noSpan : ¬ IsCodeSpanLine (lineText raw) := fun span => spans [] raw lines rfl span rfl
          cases read : (Fence.opens (trim (lineText raw))).filter
              fun _ => indentAllowsFence (lineText raw) with
          | some opened =>
              have step := inFence_outside here noSpan read
              rw [tracked, Option.map_none, step]
              rw [walkRows, read]
              refine congrArg (true :: ·) (onward false ?_ (by rw [tracked, Option.map_none, step]))
              intro other same
              obtain rfl := Option.some.inj same
              exact known_of_opens read
          | none =>
              have step := inFence_outside here noSpan read
              rw [tracked, Option.map_none, step]
              rw [walkRows, read]
              have rest (inTable : Bool) := @onward none inTable
                (fun _ none => nomatch none) (by rw [tracked, Option.map_none, step]; rfl)
              dsimp only
              split
              · exact congrArg (false :: ·) (rest false)
              · exact congrArg (false :: ·) (rest _)

/-- The lines the tracker flags are the lines the merge takes for fenced code. -/
theorem fencedRows_eq_tracked {lines : List Text}
    (plain : ∀ raw ∈ lines, PlainIndent (lineText raw))
    (spans : ∀ before raw after, lines = before ++ raw :: after → IsCodeSpanLine (lineText raw) →
      trackerAfter none (before.map lineText) ≠ none) :
    fencedRows lines = trackedFrom none (lines.map lineText) :=
  walkRows_fenced false (fun _ none => nomatch none) plain spans

/-- A table after a fence of its own, which a marker behind wide blanks does not close. -/
def fencedLines : List Text :=
  ["~~~ x\n".toList, "\x60\x60\x60\n".toList, "\u3000\u3000~~~\n".toList, " ~~~\n".toList,
    "a|b".toList]

theorem fencedRows_eq_tracked_fence :
    fencedRows fencedLines = trackedFrom none (fencedLines.map lineText) := by
  have noSpan : ∀ raw ∈ fencedLines, ¬ IsCodeSpanLine (lineText raw) := by decide
  refine fencedRows_eq_tracked (by decide) ?_
  intro before raw after split span
  exact absurd span (noSpan raw (split ▸ List.mem_append_right _ List.mem_cons_self))

/-- Code in a line opens a fence for the tracker alone. -/
theorem code_in_a_line_opens_a_fence :
    trackedFrom none ["\x60\x60\x60x\x60\x60\x60".toList] = [true] ∧
      fencedRows ["\x60\x60\x60x\x60\x60\x60".toList] = [false] := by
  decide

end Crystalline.Collab
