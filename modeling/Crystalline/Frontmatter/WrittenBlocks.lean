import Crystalline.Frontmatter.BlockEdit

/-!
# The blocks the editors write

Whatever a value holds, it is written without a control character.  A written
block is therefore one line that sets its key, and an item to a line under it.
-/

namespace Crystalline

open Text

theorem hexDigit_plain : ∀ digit < 16, isAsciiControl (hexDigit digit) = false := by decide

theorem isBareChar_plain {char : Char} (bare : isBareChar char = true) :
    isAsciiControl char = false := by
  apply Bool.eq_false_iff.mpr
  intro control
  simp only [isAsciiControl, Bool.or_eq_true, decide_eq_true_eq, beq_iff_eq] at control
  have small : ∀ code < 0x80, (code < 0x20 ∨ code = 0x7F) →
      isBareChar (Char.ofNat code) = false := by decide
  have notBare := small char.toNat (by omega) control
  rw [Char.ofNat_toNat, bare] at notBare
  exact Bool.noConfusion notBare

theorem plain_pair {mark other : Char}
    (plain : isAsciiControl mark = false ∧ isAsciiControl other = false) :
    ∀ written ∈ [mark, other], isAsciiControl written = false := by
  simpa using plain

theorem escapeChar_plain (char : Char) :
    ∀ written ∈ escapeChar char, isAsciiControl written = false := by
  unfold escapeChar
  split
  · exact plain_pair (by decide)
  split
  · exact plain_pair (by decide)
  split
  · exact plain_pair (by decide)
  split
  · exact plain_pair (by decide)
  split
  · exact plain_pair (by decide)
  split
  · have high := hexDigit_plain (char.toNat / 16) (by omega)
    have low := hexDigit_plain (char.toNat % 16) (by omega)
    have marks : isAsciiControl '\\' = false ∧ isAsciiControl 'x' = false := by decide
    simp [high, low, marks]
  · next notControl =>
      intro written member
      obtain rfl := List.mem_singleton.mp member
      simp only [isAsciiControl, Bool.or_eq_false_iff, decide_eq_false_iff_not,
        beq_eq_false_iff_ne]
      omega

theorem flowScalar_plain (value : Text) :
    ∀ char ∈ flowScalar value, isAsciiControl char = false := by
  intro char member
  unfold flowScalar at member
  split at member
  · next bare =>
      simp only [isBare, Bool.and_eq_true] at bare
      exact isBareChar_plain (List.all_eq_true.mp bare.1.1.1.2 char member)
  · simp only [List.cons_append, List.mem_cons, List.mem_append, List.mem_flatMap,
      List.not_mem_nil, or_false] at member
    rcases member with rfl | ⟨source, -, inside⟩ | rfl
    · decide
    · exact escapeChar_plain source char inside
    · decide

theorem flowScalar_oneLine (value : Text) : '\n' ∉ flowScalar value := fun member =>
  absurd (flowScalar_plain value '\n' member) (by decide)

variable {key : Text}

theorem flowPart_oneLine (absent : '\n' ∉ key) (value : Option Text) :
    '\n' ∉ flowPart key value := by
  cases value with
  | none => simp [flowPart]
  | some text => simp [flowPart, absent, flowScalar_oneLine]

section

variable {Date Instant : Type} (calendar : Calendar Date Instant)

theorem verifiedFlow_oneLine (entry : Verified Instant) : '\n' ∉ verifiedFlow calendar entry := by
  unfold verifiedFlow
  simp only [List.mem_append, not_or]
  exact ⟨⟨⟨⟨by decide, flowScalar_oneLine _⟩, flowPart_oneLine (by decide) _⟩,
    flowPart_oneLine (by decide) _⟩, by decide⟩

theorem evolveAckFlow_oneLine (ack : EvolveAck Instant) :
    '\n' ∉ evolveAckFlow calendar ack := by
  unfold evolveAckFlow
  simp only [List.mem_append, not_or]
  exact ⟨⟨⟨⟨⟨⟨⟨by decide, flowScalar_oneLine _⟩, flowPart_oneLine (by decide) _⟩,
    flowPart_oneLine (by decide) _⟩, by decide⟩, flowScalar_oneLine _⟩,
    flowPart_oneLine (by decide) _⟩, by decide⟩

/-- A `generated` line is the block of one entry of the trail. -/
theorem generatedFlow_eq (generated : Generated Instant) :
    generatedFlow calendar generated = flowBlock "generated".toList (verifiedFlow calendar)
      [⟨generated.writtenBy, generated.model, generated.writtenAt⟩] := by
  have opens : "generated: \x7b by: ".toList =
      "generated".toList ++ ": ".toList ++ "\x7b by: ".toList := rfl
  unfold generatedFlow flowBlock verifiedFlow
  rw [opens]
  simp only [List.append_assoc]

end

variable {Entry : Type} {flow : Entry → Text} {entries : List Entry}

/-- The lines of a written block: the key line, and an item to a line under it. -/
theorem flowBlock_lines (absent : '\n' ∉ key) (oneLine : ∀ entry ∈ entries, '\n' ∉ flow entry) :
    ∃ first items, splitInclusive (flowBlock key flow entries ++ ['\n']) = first :: items ∧
      lineSetsKey first key = true ∧ (∀ item ∈ items, ∃ rest, item = "- ".toList ++ rest) ∧
      ∀ line ∈ first :: items, IsLine line := by
  have cut {first : Text} {items : List Text}
      (whole : flowBlock key flow entries ++ ['\n'] = (first :: items).flatten)
      (areLines : ∀ line ∈ first :: items, IsLine line) :
      splitInclusive (flowBlock key flow entries ++ ['\n']) = first :: items := by
    rw [whole]
    exact splitInclusive_flatten_of_lines areLines
  unfold flowBlock at cut ⊢
  split at cut
  · next only =>
      have isLine : IsLine (key ++ ": ".toList ++ flow only ++ ['\n']) :=
        isLine_snoc (by simp [absent, oneLine only (by simp)])
      have areLines : ∀ line ∈ [key ++ ": ".toList ++ flow only ++ ['\n']], IsLine line := by
        simpa using isLine
      refine ⟨_, [], cut (by simp) areLines, ?_, by simp, areLines⟩
      exact lineSetsKey_iff.mpr ⟨' ' :: (flow only ++ ['\n']), by simp⟩
  · have areLines : ∀ line ∈ (key ++ [':'] ++ ['\n']) ::
        entries.map (fun entry => "- ".toList ++ flow entry ++ ['\n']), IsLine line := by
      intro line member
      rcases List.mem_cons.mp member with rfl | item
      · exact isLine_snoc (by simp [absent])
      · obtain ⟨entry, among, rfl⟩ := List.mem_map.mp item
        exact isLine_snoc (by simp [oneLine entry among])
    refine ⟨_, _, cut ?_ areLines, ?_, ?_, areLines⟩
    · -- The line feeds stand before the items in the block, and after them in its lines.
      have several : ∀ others : List Entry,
          (others.flatMap fun entry => "\n- ".toList ++ flow entry) ++ ['\n'] =
            ['\n'] ++ (others.map fun entry => "- ".toList ++ flow entry ++ ['\n']).flatten := by
        intro others
        induction others with
        | nil => rfl
        | cons entry others ih =>
            rw [List.flatMap_cons, List.append_assoc, ih]
            simp
      rw [List.append_assoc, several, List.flatten_cons]
      simp
    · exact lineSetsKey_iff.mpr ⟨['\n'], by simp⟩
    · intro item member
      obtain ⟨entry, -, rfl⟩ := List.mem_map.mp member
      exact ⟨flow entry ++ ['\n'], by simp⟩

end Crystalline
