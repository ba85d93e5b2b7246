import Crystalline.Parsing.Destinations

/-!
# Two readings of inline code

The parser blanks inline code character by character; the relative-link rewriter
answers the byte ranges of it.  Both match a run of backticks with the next run of
the same length.
-/

namespace Crystalline.Parsing

open Text

/-- How many backticks a text starts with. -/
def leadingBackticks (text : Text) : Nat := (text.takeWhile (· = '\x60')).length

/-- How many characters there are up to the end of the first run of as many
backticks as `run`; `skip` characters are behind the loop's own index. -/
def closedAfter (run : Nat) : (skip : Nat) → Text → Option Nat
  | _, [] => none
  | skip + 1, _ :: rest => (closedAfter run skip rest).map (· + 1)
  | 0, char :: rest =>
      if char = '\x60' then
        let count := leadingBackticks (char :: rest)
        if count = run then some count
        else (closedAfter run (count - 1) rest).map (· + 1)
      else (closedAfter run 0 rest).map (· + 1)

/-- The loop of `mask_inline_code`; `blank` characters are in a code span, and then
`skip` characters are behind the loop's own index. -/
def maskFrom : (blank skip : Nat) → Text → Text
  | _, _, [] => []
  | blank + 1, skip, _ :: rest => ' ' :: maskFrom blank skip rest
  | 0, skip + 1, char :: rest => char :: maskFrom 0 skip rest
  | 0, 0, char :: rest =>
      if char = '\x60' then
        let run := leadingBackticks (char :: rest)
        match closedAfter run 0 ((char :: rest).drop run) with
        | some length => ' ' :: maskFrom (run + length - 1) 0 rest
        | none => char :: maskFrom 0 (run - 1) rest
      else char :: maskFrom 0 0 rest

/-- Inline code, its backticks included, as spaces. -/
def maskInlineCode (line : Text) : Text := maskFrom 0 0 line

theorem ne_backtick_of_mem {char : Char} (other : char ≠ '\x60') :
    ∀ byte ∈ String.utf8EncodeChar char, byte ≠ ascii '\x60' := by
  intro byte member same
  obtain rfl := same
  obtain ⟨place, found⟩ := List.mem_iff_getElem?.mp member
  have single : (bytes [char])[place]? = some (ascii '\x60') := by
    rw [bytes, List.flatMap_cons, List.flatMap_nil, List.append_nil]
    exact found
  obtain ⟨front, back, same, -⟩ := exists_ascii single (by decide)
  cases front with
  | nil => exact other (List.cons.inj same).1
  | cons _ front => simp at same

theorem bytes_cons (char : Char) (text : Text) :
    bytes (char :: text) = String.utf8EncodeChar char ++ bytes text := List.flatMap_cons

theorem bytes_append (front back : Text) : bytes (front ++ back) = bytes front ++ bytes back :=
  List.flatMap_append

theorem bytes_drop (text : Text) (count : Nat) :
    bytes (text.drop count) = (bytes text).drop (byteLen (text.take count)) := by
  have whole := bytes_append (text.take count) (text.drop count)
  rw [List.take_append_drop] at whole
  rw [whole, List.drop_left' (length_bytes _)]

theorem bytes_cons_backtick (text : Text) : bytes ('\x60' :: text) = ascii '\x60' :: bytes text :=
  rfl

theorem backticks_bytes (text : Text) : backticks (bytes text) = leadingBackticks text := by
  induction text with
  | nil => rfl
  | cons char text induction =>
      by_cases tick : char = '\x60'
      · subst char
        rw [bytes_cons_backtick, backticks, leadingBackticks, List.takeWhile_cons_of_pos (by simp),
          List.takeWhile_cons_of_pos (by simp)]
        exact congrArg (· + 1) induction
      · have none : backticks (bytes (char :: text)) = 0 := by
          obtain ⟨byte, later, encoded⟩ := List.exists_cons_of_ne_nil
            (String.utf8EncodeChar_ne_nil (c := char))
          have different := ne_backtick_of_mem tick byte (by rw [encoded]; exact List.mem_cons_self)
          rw [bytes_cons, encoded, backticks, List.cons_append,
            List.takeWhile_cons_of_neg (by simpa using different)]
          rfl
        rw [none, leadingBackticks, List.takeWhile_cons_of_neg (by simpa using tick)]
        rfl

variable {others rest : List UInt8}

theorem closingRun_other {run index : Nat} (different : ∀ byte ∈ others, byte ≠ ascii '\x60') :
    closingRun run 0 index (others ++ rest) = closingRun run 0 (index + others.length) rest := by
  induction others generalizing index with
  | nil => rfl
  | cons byte others induction =>
      rw [List.cons_append, closingRun, if_neg (different byte List.mem_cons_self),
        induction fun other member => different other (List.mem_cons_of_mem _ member)]
      exact congrArg (closingRun run 0 · rest) (by rw [List.length_cons]; omega)

theorem codeSpansFrom_other {index : Nat} (different : ∀ byte ∈ others, byte ≠ ascii '\x60') :
    codeSpansFrom 0 index (others ++ rest) = codeSpansFrom 0 (index + others.length) rest := by
  induction others generalizing index with
  | nil => rfl
  | cons byte others induction =>
      rw [List.cons_append, codeSpansFrom, if_pos (different byte List.mem_cons_self),
        induction fun other member => different other (List.mem_cons_of_mem _ member)]
      exact congrArg (codeSpansFrom 0 · rest) (by rw [List.length_cons]; omega)

theorem codeSpansFrom_skip (skipped rest : List UInt8) (index : Nat) :
    codeSpansFrom skipped.length index (skipped ++ rest) =
      codeSpansFrom 0 (index + skipped.length) rest := by
  induction skipped generalizing index with
  | nil => rfl
  | cons byte skipped induction =>
      rw [List.cons_append, List.length_cons, codeSpansFrom, induction]
      exact congrArg (codeSpansFrom 0 · rest) (by omega)

theorem leadingBackticks_cons (text : Text) :
    leadingBackticks ('\x60' :: text) = leadingBackticks text + 1 := by
  rw [leadingBackticks, List.takeWhile_cons_of_pos (by simp)]
  rfl

variable {text : Text}

theorem byteLen_take_backticks {count : Nat} (inside : count ≤ leadingBackticks text) :
    byteLen (text.take count) = count := by
  induction text generalizing count with
  | nil => simpa using (Nat.le_zero.mp inside).symm
  | cons char text induction =>
      cases count with
      | zero => rfl
      | succ count =>
          by_cases tick : char = '\x60'
          · subst char
            rw [leadingBackticks_cons] at inside
            rw [List.take_succ_cons, byteLen_cons, induction (by omega)]
            exact Nat.add_comm 1 count
          · rw [leadingBackticks, List.takeWhile_cons_of_neg (by simpa using tick)] at inside
            exact absurd inside (Nat.not_succ_le_zero count)

/-- The bytes close a run of backticks where the characters do. -/
theorem closingRun_bytes {run skip : Nat} (index : Nat) (behind : skip ≤ leadingBackticks text) :
    closingRun run skip index (bytes text) =
      (closedAfter run skip text).map fun length => index + byteLen (text.take length) := by
  induction text generalizing skip index with
  | nil => cases skip <;> rfl
  | cons char text induction =>
      have later {skip index : Nat} (length : Option Nat) (size : char.utf8Size = 1)
          (same : closingRun run skip (index + 1) (bytes text) =
            length.map fun length => index + 1 + byteLen (text.take length)) :
          closingRun run skip (index + 1) (bytes text) =
            (length.map (· + 1)).map fun length =>
              index + byteLen ((char :: text).take length) := by
        rw [same, Option.map_map]
        cases length with
        | none => rfl
        | some length =>
            simp only [Option.map_some, Function.comp_apply, List.take_succ_cons, byteLen_cons,
              size]
            rw [Nat.add_assoc]
      by_cases tick : char = '\x60'
      · subst char
        rw [bytes_cons_backtick]
        rw [leadingBackticks_cons] at behind
        cases skip with
        | succ skip =>
            rw [closingRun, closedAfter]
            exact later _ rfl (induction (index + 1) (by omega))
        | zero =>
            have count : backticks (ascii '\x60' :: bytes text) =
                leadingBackticks ('\x60' :: text) := backticks_bytes ('\x60' :: text)
            rw [closingRun, closedAfter, if_pos rfl, if_pos rfl, count]
            dsimp only
            split
            · rw [Option.map_some, byteLen_take_backticks (Nat.le_refl _)]
            · refine later _ rfl (induction (index + 1) ?_)
              rw [leadingBackticks_cons]
              omega
      · have none : leadingBackticks (char :: text) = 0 := by
          rw [leadingBackticks, List.takeWhile_cons_of_neg (by simpa using tick)]
          rfl
        obtain rfl : skip = 0 := by omega
        rw [bytes_cons, closingRun_other (ne_backtick_of_mem tick), closedAfter, if_neg tick,
          induction _ (Nat.zero_le _), String.length_utf8EncodeChar, Option.map_map]
        apply congrArg (Option.map · (closedAfter run 0 text))
        funext length
        rw [Function.comp_apply, List.take_succ_cons, byteLen_cons, Nat.add_assoc]

theorem closedAfter_le {run skip length : Nat} (closed : closedAfter run skip text = some length) :
    length ≤ text.length := by
  induction text generalizing skip length with
  | nil => cases skip <;> cases closed
  | cons char text induction =>
      have later {skip : Nat} (closed : (closedAfter run skip text).map (· + 1) = some length) :
          length ≤ (char :: text).length := by
        obtain ⟨shorter, found, rfl⟩ := Option.map_eq_some_iff.mp closed
        exact Nat.succ_le_succ (induction found)
      cases skip with
      | succ skip => exact later closed
      | zero =>
          rw [closedAfter] at closed
          split at closed
          · dsimp only at closed
            split at closed
            · rw [← Option.some.inj closed]
              exact (List.takeWhile_prefix _).length_le
            · exact later closed
          · exact later closed

/-- The text from byte `index` on, the spans that cover part of it and what is left
of it when they are blanked. -/
inductive Masks : (index : Nat) → Text → List (Nat × Nat) → Text → Prop
  | nil (index : Nat) : Masks index [] [] []
  | other {index : Nat} {char : Char} {rest masked : Text} {spans : List (Nat × Nat)}
      (later : Masks (index + char.utf8Size) rest spans masked) :
      Masks index (char :: rest) spans (char :: masked)
  | code {index : Nat} {inside rest masked : Text} {spans : List (Nat × Nat)}
      (later : Masks (index + byteLen inside) rest spans masked) :
      Masks index (inside ++ rest) ((index, index + byteLen inside) :: spans)
        (List.replicate inside.length ' ' ++ masked)

theorem maskFrom_blank (blank skip : Nat) (text : Text) :
    maskFrom blank skip text =
      List.replicate (text.take blank).length ' ' ++ maskFrom 0 skip (text.drop blank) := by
  induction text generalizing blank with
  | nil => cases blank <;> cases skip <;> rfl
  | cons char text induction =>
      cases blank with
      | zero => rfl
      | succ blank =>
          rw [maskFrom, induction]
          rfl

theorem inCode_eq_false {spans : List (Nat × Nat)} {place : Nat}
    (after : ∀ span ∈ spans, place < span.1) : inCode spans place = false := by
  rw [inCode, List.any_eq_false]
  intro span member
  have start := after span member
  simp only [Bool.and_eq_true, decide_eq_true_eq, not_and]
  omega

theorem inCode_cons (span : Nat × Nat) (spans : List (Nat × Nat)) (place : Nat) :
    inCode (span :: spans) place =
      ((span.1 ≤ place && place < span.2) || inCode spans place) := rfl

theorem maskFrom_masks (text : Text) : ∀ {skip : Nat} (index : Nat),
    skip ≤ leadingBackticks text →
      Masks index text (codeSpansFrom skip index (bytes text)) (maskFrom 0 skip text) := by
  -- The loops go on behind a code span, so the induction is on the length.
  induction length : text.length using Nat.strong_induction_on generalizing text with
  | _ count induction =>
      subst length
      intro skip index behind
      cases text with
      | nil => cases skip <;> exact .nil index
      | cons char text =>
          have rest {skip : Nat} := @induction text.length (Nat.lt_succ_self _) text rfl skip
          by_cases tick : char = '\x60'
          · subst char
            rw [leadingBackticks_cons] at behind
            rw [bytes_cons_backtick]
            cases skip with
            | succ skip => exact .other (rest _ (by omega))
            | zero =>
                have run : backticks (ascii '\x60' :: bytes text) = leadingBackticks text + 1 := by
                  rw [← bytes_cons_backtick, backticks_bytes, leadingBackticks_cons]
                have ahead := bytes_drop text (leadingBackticks text)
                rw [byteLen_take_backticks (Nat.le_refl _)] at ahead
                rw [maskFrom, codeSpansFrom, if_pos rfl, if_neg (not_not.mpr rfl), run,
                  leadingBackticks_cons]
                dsimp only
                rw [List.drop_succ_cons, List.drop_succ_cons, ← ahead,
                  closingRun_bytes _ (Nat.zero_le _)]
                cases closed : closedAfter (leadingBackticks text + 1) 0
                    (text.drop (leadingBackticks text)) with
                | none => exact .other (rest _ (Nat.le_refl _))
                | some length =>
                    have split := List.take_append_drop (leadingBackticks text + length) text
                    generalize place : text.take (leadingBackticks text + length) = inside at split
                    generalize text.drop (leadingBackticks text + length) = after at split
                    have size : byteLen inside = leadingBackticks text +
                        byteLen ((text.drop (leadingBackticks text)).take length) := by
                      rw [← place, List.take_add, byteLen_append,
                        byteLen_take_backticks (Nat.le_refl _)]
                    have count : inside.length = leadingBackticks text + length := by
                      have bound := closedAfter_le closed
                      rw [List.length_drop] at bound
                      have front : leadingBackticks text ≤ text.length :=
                        (List.takeWhile_prefix _).length_le
                      rw [← place, List.length_take, Nat.min_eq_left]
                      omega
                    have tick : '\x60'.utf8Size = 1 := rfl
                    have stop : index + (leadingBackticks text + 1) +
                        byteLen ((text.drop (leadingBackticks text)).take length) =
                          index + byteLen ('\x60' :: inside) := by
                      rw [byteLen_cons, size, tick]
                      omega
                    have skip : index + byteLen ('\x60' :: inside) - index - 1 =
                        (bytes inside).length := by
                      rw [byteLen_cons, length_bytes, tick]
                      omega
                    have beyond : index + 1 + (bytes inside).length =
                        index + byteLen ('\x60' :: inside) := by
                      rw [byteLen_cons, length_bytes, tick]
                      omega
                    have shorter : after.length < ('\x60' :: text).length := by
                      rw [← split, List.length_cons, List.length_append]
                      omega
                    simp only [Option.map_some]
                    rw [stop, skip, Nat.add_right_comm, Nat.add_sub_cancel, ← count, ← split,
                      bytes_append, codeSpansFrom_skip, beyond, maskFrom_blank, List.take_left,
                      List.drop_left, ← List.cons_append]
                    exact .code (induction after.length shorter after rfl _ (Nat.zero_le _))
          · have alone : leadingBackticks (char :: text) = 0 := by
              rw [leadingBackticks, List.takeWhile_cons_of_neg (by simpa using tick)]
              rfl
            obtain rfl : skip = 0 := by omega
            rw [maskFrom, if_neg tick, bytes_cons, codeSpansFrom_other (ne_backtick_of_mem tick),
              String.length_utf8EncodeChar]
            exact .other (rest _ (Nat.zero_le _))

namespace Masks

variable {index : Nat} {text masked : Text} {spans : List (Nat × Nat)}

section

variable (masks : Masks index text spans masked)
include masks

theorem starts : ∀ span ∈ spans, index ≤ span.1 := by
  induction masks with
  | nil => simp
  | other _ induction => exact fun span member => Nat.le_of_add_right_le (induction span member)
  | code _ induction =>
      intro span member
      rcases List.mem_cons.mp member with rfl | later
      · exact Nat.le_refl _
      · exact Nat.le_of_add_right_le (induction span later)

theorem length_eq : masked.length = text.length := by
  induction masks with
  | nil => rfl
  | other _ induction => exact congrArg (· + 1) induction
  | code _ induction =>
      rw [List.length_append, List.length_replicate, List.length_append, induction]

/-- Every character is in code with all of its bytes or with none. -/
theorem covers {front back : Text} {char : Char} (here : text = front ++ char :: back) :
    ∃ code : Bool, (∀ byte < char.utf8Size,
        inCode spans (index + byteLen front + byte) = code) ∧
      masked[front.length]? = some (if code then ' ' else char) := by
  induction masks generalizing front with
  | nil => simp at here
  | @other index first rest masked spans later induction =>
      cases front with
      | nil =>
          obtain ⟨rfl, rfl⟩ := List.cons.inj here
          refine ⟨false, ?_, rfl⟩
          intro byte inside
          apply inCode_eq_false
          intro span member
          have start := later.starts span member
          rw [byteLen_nil]
          omega
      | cons first front =>
          obtain ⟨rfl, rfl⟩ := List.cons.inj here
          obtain ⟨code, covered, found⟩ := induction rfl
          refine ⟨code, ?_, found⟩
          rwa [byteLen_cons, ← Nat.add_assoc]
  | @code index inside rest masked spans later induction =>
      have behind {byte : Nat} {front : Text} :
          inCode ((index, index + byteLen inside) :: spans)
              (index + byteLen (inside ++ front) + byte) =
            inCode spans (index + byteLen inside + byteLen front + byte) := by
        have passed : ¬ index + byteLen (inside ++ front) + byte < index + byteLen inside := by
          rw [byteLen_append]
          omega
        rw [inCode_cons, decide_eq_false passed, Bool.and_false, Bool.false_or, byteLen_append,
          ← Nat.add_assoc index]
      rcases List.append_eq_append_iff.mp here with ⟨before, rfl, same⟩ | ⟨more, split, same⟩
      · obtain ⟨code, covered, found⟩ := induction same
        refine ⟨code, ?_, ?_⟩
        · intro byte small
          rw [behind, covered byte small]
        · rw [List.length_append, List.getElem?_append_right (by simp), List.length_replicate,
            Nat.add_sub_cancel_left, found]
      · cases more with
        | nil =>
            obtain rfl : inside = front := by simpa using split
            obtain ⟨code, covered, found⟩ := @induction [] same.symm
            refine ⟨code, ?_, ?_⟩
            · intro byte small
              have plain := @behind byte []
              rw [List.append_nil] at plain
              rw [plain, covered byte small]
            · rw [List.getElem?_append_right (by simp), List.length_replicate, Nat.sub_self]
              exact found
        | cons first more =>
            obtain ⟨rfl, -⟩ := List.cons.inj same
            refine ⟨true, ?_, ?_⟩
            · intro byte small
              have inside : index + byteLen front + byte < index + byteLen inside := by
                rw [split, byteLen_append, byteLen_cons]
                omega
              have started : index ≤ index + byteLen front + byte := by omega
              rw [inCode_cons, decide_eq_true inside, decide_eq_true started]
              rfl
            · have place : front.length < inside.length := by
                rw [split, List.length_append, List.length_cons]
                omega
              rw [List.getElem?_append_left (by simpa using place),
                List.getElem?_replicate_of_lt place]
              rfl

end

end Masks

/-- The mask blanks the characters the byte ranges cover and no others, so what is code
to the rewriter is code to the parser. -/
theorem maskInlineCode_codeSpans (line : Text) :
    (maskInlineCode line).length = line.length ∧
      ∀ front char back, line = front ++ char :: back →
        (∀ byte < char.utf8Size, inCode (codeSpans line) (byteLen front + byte) =
          inCode (codeSpans line) (byteLen front)) ∧
        (maskInlineCode line)[front.length]? =
          some (if inCode (codeSpans line) (byteLen front) then ' ' else char) ∧
        (char ≠ ' ' → ((maskInlineCode line)[front.length]? ≠ some char ↔
          inCode (codeSpans line) (byteLen front) = true)) := by
  have masks := maskFrom_masks line 0 (Nat.zero_le _)
  refine ⟨masks.length_eq, ?_⟩
  intro front char back here
  obtain ⟨code, covered, found⟩ := masks.covers here
  simp only [Nat.zero_add] at covered
  have first := covered 0 char.utf8Size_pos
  rw [Nat.add_zero] at first
  rw [codeSpans, first]
  refine ⟨covered, found, ?_⟩
  intro printed
  rw [maskInlineCode, found]
  cases code with
  | false => simp
  | true => simpa using printed.symm

end Crystalline.Parsing
