import Crystalline.Frontmatter.WrittenBlocks

/-!
# Replacing a value keeps what is around it

The block editors cut the lines of a frontmatter around the value of a key: the lines
before its key line, those up to the last line that continues the value, and the rest.
Whatever the source holds, an edit puts the new block in the place of the value and
leaves the other lines, the delimiters and the body as they are.
-/

namespace Crystalline

open Text

/-- A blank line or a comment at column 0: it stands in a value as well as after it. -/
def isGap (line : Text) : Bool :=
  !continuesValue line &&
    ((trim (lineContent line)).isEmpty || startsWith (lineContent line) ['#'])

/-- After a key line, `value` runs up to the last line that continues its value
over no more than gaps. -/
structure EndsValue (value rest : List Text) : Prop where
  lines : ∀ line ∈ value, continuesValue line = true ∨ isGap line = true
  ends : ∀ last ∈ value.getLast?, continuesValue last = true
  stops : ∀ next ∈ (rest.dropWhile isGap).head?, continuesValue next = false

theorem exists_endsValue (lines : List Text) :
    ∃ value rest, lines = value ++ rest ∧ EndsValue value rest := by
  induction lines with
  | nil => exact ⟨[], [], rfl, ⟨by simp, by simp, by simp⟩⟩
  | cons line lines ih =>
      obtain ⟨value, rest, rfl, cut⟩ := ih
      have within (member : continuesValue line = true ∨ isGap line = true)
          (last : ∀ last ∈ (line :: value).getLast?, continuesValue last = true) :
          EndsValue (line :: value) rest := by
        refine ⟨?_, last, cut.stops⟩
        intro other inside
        rcases List.mem_cons.mp inside with rfl | later
        · exact member
        · exact cut.lines other later
      cases continues : continuesValue line with
      | true =>
          refine ⟨line :: value, rest, rfl, within (Or.inl continues) ?_⟩
          intro last isLast
          cases value with
          | nil =>
              obtain rfl : line = last := by simpa using isLast
              exact continues
          | cons next value =>
              rw [List.getLast?_cons_cons] at isLast
              exact cut.ends last isLast
      | false =>
          cases gap : isGap line with
          | true =>
              cases value with
              | nil =>
                  refine ⟨[], line :: rest, rfl, by simp, by simp, ?_⟩
                  rw [List.dropWhile_cons_of_pos gap]
                  exact cut.stops
              | cons next value =>
                  refine ⟨line :: next :: value, rest, rfl, within (Or.inr gap) ?_⟩
                  intro last isLast
                  rw [List.getLast?_cons_cons] at isLast
                  exact cut.ends last isLast
          | false =>
              refine ⟨[], line :: (value ++ rest), rfl, by simp, by simp, ?_⟩
              rw [List.dropWhile_cons_of_neg (by simp [gap])]
              intro next isNext
              obtain rfl : line = next := by simpa using isNext
              exact continues

variable {line : Text} {block lines edited : List Text}

theorem replaceLines_continues (continues : continuesValue line = true)
    (key replacement held : Text) (lines : List Text) :
    replaceLines key replacement .dropping held (line :: lines) =
      replaceLines key replacement .dropping [] lines := by
  rw [continuesValue] at continues
  rw [replaceLines, if_pos continues]

theorem replaceLines_gap (gap : isGap line = true) (key replacement held : Text)
    (lines : List Text) :
    replaceLines key replacement .dropping held (line :: lines) =
      replaceLines key replacement .dropping (held ++ line) lines := by
  obtain ⟨ends, filler⟩ := Bool.and_eq_true_iff.mp gap
  have notValue : ¬ isValueContinuation (lineContent line) = true := by
    simpa [continuesValue] using ends
  rw [replaceLines, if_neg notValue, if_pos filler]

theorem replaceLines_value {value rest : List Text} (cut : EndsValue value rest)
    (nonempty : value ≠ []) (key replacement held : Text) :
    replaceLines key replacement .dropping held (value ++ rest) =
      replaceLines key replacement .dropping [] rest := by
  induction value generalizing held with
  | nil => exact absurd rfl nonempty
  | cons line value ih =>
      rw [List.cons_append]
      cases value with
      | nil => exact replaceLines_continues (cut.ends line rfl) key replacement held rest
      | cons next value =>
          have later : EndsValue (next :: value) rest :=
            ⟨fun other inside => cut.lines other (List.mem_cons_of_mem _ inside),
              by simpa [List.getLast?_cons_cons] using cut.ends, cut.stops⟩
          rcases cut.lines line (by simp) with continues | gap
          · rw [replaceLines_continues continues]
            exact ih later (by simp) []
          · rw [replaceLines_gap gap]
            exact ih later (by simp) (held ++ line)

variable {rest : List Text} {lines : List Text} {key : Text} {keys : List Text} {others : List Text}

theorem replaceLines_rest
    (stops : ∀ next ∈ (rest.dropWhile isGap).head?, continuesValue next = false)
    (key replacement held : Text) :
    replaceLines key replacement .dropping held rest = some (held ++ rest.flatten) := by
  induction rest generalizing held with
  | nil => simp [replaceLines]
  | cons line rest ih =>
      cases gap : isGap line with
      | true =>
          rw [List.dropWhile_cons_of_pos gap] at stops
          rw [replaceLines_gap gap, ih stops]
          simp
      | false =>
          rw [List.dropWhile_cons_of_neg (by simp [gap])] at stops
          have ends : continuesValue line = false := stops line rfl
          have notFiller : ¬ ((trim (lineContent line)).isEmpty ||
              startsWith (lineContent line) ['#']) = true := by
            simpa [isGap, ends] using gap
          rw [replaceLines, if_neg (by simpa [continuesValue] using ends), if_neg notFiller,
            replaceLines_behind]
          simp

theorem replaceLines_cut {before value rest : List Text} {keyLine key : Text}
    (unset : ∀ line ∈ before, lineSetsKey line key = false)
    (sets : lineSetsKey keyLine key = true) (cut : EndsValue value rest) (replacement : Text) :
    replaceLines key replacement .before [] (before ++ keyLine :: (value ++ rest)) =
      some (before.flatten ++ (replacement ++ rest.flatten)) := by
  have dropped : replaceLines key replacement .dropping [] (value ++ rest) =
      some rest.flatten := by
    cases value with
    | nil => exact replaceLines_rest cut.stops key replacement []
    | cons line value =>
        rw [replaceLines_value cut (by simp), replaceLines_rest cut.stops]
        rfl
  have unsetContent (line) (member : line ∈ before) :
      lineSetsKey (lineContent line) key = false := by
    rw [lineSetsKey_lineContent]
    exact unset line member
  rw [← lineSetsKey_lineContent] at sets
  rw [replaceLines_before unsetContent, replaceLines, if_pos sets, dropped]
  rfl

/-- Some line sets the key. -/
def anySets (lines : List Text) (key : Text) : Bool := lines.any fun line => lineSetsKey line key

/-- The lines of a frontmatter with the value of the first of `keys` that some
line sets replaced by `block`, or with `block` after them all. -/
def ReplacedIn (keys : List Text) (block lines edited : List Text) : Prop :=
  match keys.find? (anySets lines) with
  | none => edited = lines ++ block
  | some key => ∃ before keyLine value rest,
      lines = before ++ keyLine :: (value ++ rest) ∧
        (∀ line ∈ before, lineSetsKey line key = false) ∧ lineSetsKey keyLine key = true ∧
        EndsValue value rest ∧ edited = before ++ (block ++ rest)

theorem exists_cut (sets : anySets lines key = true) :
    ∃ before keyLine value rest, lines = before ++ keyLine :: (value ++ rest) ∧
      (∀ line ∈ before, lineSetsKey line key = false) ∧ lineSetsKey keyLine key = true ∧
      EndsValue value rest := by
  obtain ⟨keyLine, found⟩ := Option.isSome_iff_exists.mp
    (List.find?_isSome.mpr (List.any_eq_true.mp sets))
  obtain ⟨isKey, before, after, rfl, unset⟩ := List.find?_eq_some_iff_append.mp found
  obtain ⟨value, rest, rfl, cut⟩ := exists_endsValue after
  exact ⟨before, keyLine, value, rest, rfl, fun line member => by simpa using unset line member,
    isKey, cut⟩

theorem targetKey_eq_find {raw : Text} (ended : Terminated raw) (keys : List Text) :
    targetKey raw keys = keys.find? (anySets (splitInclusive raw)) := by
  unfold targetKey
  congr 1
  funext key
  rw [anySets, Bool.eq_iff_iff, List.any_eq_true, List.any_eq_true]
  refine exists_congr fun line => and_congr_right fun member => ?_
  rw [lineSetsKey_withoutNewline (ended line member)]

theorem replaceValue_unset {raw key : Text} (unset : anySets (splitInclusive raw) key = false)
    (replacement : Text) : replaceValue raw key replacement = none := by
  have others (line) (member : line ∈ splitInclusive raw) :
      lineSetsKey (lineContent line) key = false := by
    rw [lineSetsKey_lineContent]
    exact Bool.eq_false_iff.mpr (List.any_eq_false.mp unset line member)
  have whole := replaceLines_before others replacement []
  rw [List.append_nil] at whole
  rw [replaceValue, whole]
  rfl

theorem replaceValue_lines {raw key : Text}
    (target : keys.find? (anySets (splitInclusive raw)) = some key) (replacement : Text) :
    ∃ edited, ReplacedIn keys (splitInclusive replacement) (splitInclusive raw) edited ∧
      replaceValue raw key replacement = some edited.flatten := by
  obtain ⟨before, keyLine, value, rest, pieces, unset, isKey, cut⟩ :=
    exists_cut (List.find?_some target)
  refine ⟨before ++ (splitInclusive replacement ++ rest), ?_, ?_⟩
  · unfold ReplacedIn
    rw [target]
    exact ⟨before, keyLine, value, rest, pieces, unset, isKey, cut, rfl⟩
  · rw [replaceValue, pieces, replaceLines_cut unset isKey cut]
    simp

theorem setBlockText_lines {raw newBlock : Text} (ended : Terminated raw) (keys : List Text) :
    ∃ edited, ReplacedIn keys (splitInclusive (newBlock ++ ['\n'])) (splitInclusive raw) edited ∧
      setBlockText raw keys newBlock = edited.flatten := by
  have target := targetKey_eq_find ended keys
  unfold setBlockText
  cases found : targetKey raw keys with
  | none =>
      rw [found] at target
      refine ⟨splitInclusive raw ++ splitInclusive (newBlock ++ ['\n']), ?_, ?_⟩
      · unfold ReplacedIn
        rw [← target]
      · have whole : (!raw.isEmpty && !endsWith raw ['\n']) = false := by
          rcases terminated_iff_getLast?.mp ended with rfl | last
          · rfl
          · obtain ⟨body, rfl⟩ := List.getLast?_eq_some_iff.mp last
            rw [endsWith_iff.mpr ⟨body, rfl⟩, Bool.not_true, Bool.and_false]
        simp [whole]
  | some key =>
      rw [found] at target
      obtain ⟨edited, replaced, valueEq⟩ := replaceValue_lines target.symm (newBlock ++ ['\n'])
      exact ⟨edited, replaced, by simp [valueEq]⟩

theorem ReplacedIn.mem (replaced : ReplacedIn keys block lines edited) (member : line ∈ edited) :
    line ∈ lines ∨ line ∈ block := by
  unfold ReplacedIn at replaced
  split at replaced
  · subst replaced
    exact List.mem_append.mp member
  · obtain ⟨before, keyLine, value, rest, rfl, -, -, -, rfl⟩ := replaced
    simp only [List.mem_append, List.mem_cons] at member ⊢
    tauto

/-- How many of the lines set the key. -/
def keyLines (key : Text) (lines : List Text) : Nat :=
  lines.countP fun line => lineSetsKey line key

theorem keyLines_eq_zero :
    keyLines key lines = 0 ↔ ∀ line ∈ lines, lineSetsKey line key = false := by
  simp [keyLines, List.countP_eq_zero]

/-- Where at most one line set the first of the keys, those of the new block do. -/
theorem ReplacedIn.keyLines {written : Text}
    (replaced : ReplacedIn (written :: others) block lines edited)
    (once : keyLines written lines ≤ 1) : keyLines written edited = keyLines written block := by
  unfold ReplacedIn at replaced
  have unsetOf (unset : anySets lines written = false) :
      Crystalline.keyLines written lines = 0 :=
    keyLines_eq_zero.mpr fun line member =>
      Bool.eq_false_iff.mpr (List.any_eq_false.mp unset line member)
  split at replaced
  · next absent =>
      have none := unsetOf (by simpa using List.find?_eq_none.mp absent written (by simp))
      subst replaced
      simp only [Crystalline.keyLines, List.countP_append] at none ⊢
      rw [none, Nat.zero_add]
  · next key found =>
      obtain ⟨before, keyLine, value, rest, rfl, unset, sets, -, rfl⟩ := replaced
      have outside : Crystalline.keyLines written before = 0 ∧
          Crystalline.keyLines written rest = 0 := by
        cases first : anySets (before ++ keyLine :: (value ++ rest)) written with
        | true =>
            rw [List.find?_cons_of_pos first, Option.some.injEq] at found
            subst found
            simp only [Crystalline.keyLines, List.countP_append, List.countP_cons, sets] at once ⊢
            simp only [if_true] at once
            omega
        | false =>
            have none := unsetOf first
            simp only [Crystalline.keyLines, List.countP_append, List.countP_cons] at none ⊢
            omega
      obtain ⟨noneBefore, noneAfter⟩ := outside
      simp only [Crystalline.keyLines, List.countP_append] at noneBefore noneAfter ⊢
      omega

theorem ReplacedIn.splits {source : Text} {parts : FrontmatterParts} {keys block edited : List Text}
    (replaced : ReplacedIn keys block (splitInclusive parts.yaml) edited)
    (found : splitFrontmatter source = some parts) (areLines : ∀ line ∈ block, IsLine line)
    (plain : ∀ line ∈ block, isDelimiter line = false) :
    splitFrontmatter (parts.openLine ++ edited.flatten ++ (parts.closeLine ++ parts.body)) =
        some { parts with yaml := edited.flatten } ∧
      splitInclusive edited.flatten = edited := by
  obtain ⟨wellCut, -⟩ := splitFrontmatter_eq_some_iff.mp found
  have ended (line) (member : line ∈ edited) : IsLine line :=
    (replaced.mem member).elim (wellCut.yaml_terminated line) (areLines line)
  have pieces := splitInclusive_flatten_of_lines ended
  refine ⟨splitFrontmatter_eq_some_iff.mpr ⟨?_, by simp [FrontmatterParts.source]⟩, pieces⟩
  refine ⟨wellCut.openLine_isLine, wellCut.openLine_delimits, terminated_flatten ended, ?_,
    wellCut.closeLine_delimits, wellCut.closeLine_ends⟩
  rw [pieces]
  intro line member
  exact (replaced.mem member).elim (wellCut.yaml_undelimited line) (plain line)

/-- `edited` is `source` with the value of the first of `keys` that its frontmatter
sets replaced by `block`. -/
def ReplacesValue (keys : List Text) (block source edited : Text) : Prop :=
  ∀ parts, splitFrontmatter source = some parts →
    ∃ yaml, splitFrontmatter edited = some { parts with yaml := yaml } ∧
      ReplacedIn keys (splitInclusive block) (splitInclusive parts.yaml) (splitInclusive yaml)

/-- Where at most one line of the frontmatter set the key, `count` lines do. -/
def LeavesKeyLines (key : Text) (count : Nat) (source edited : Text) : Prop :=
  ∀ parts after, splitFrontmatter source = some parts → splitFrontmatter edited = some after →
    keyLines key (splitInclusive parts.yaml) ≤ 1 →
      keyLines key (splitInclusive after.yaml) = count

theorem ReplacesValue.leaves {written block source edited : Text}
    (replaces : ReplacesValue (written :: others) block source edited) {count : Nat}
    (counted : keyLines written (splitInclusive block) = count) :
    LeavesKeyLines written count source edited := by
  intro parts after found foundAfter once
  obtain ⟨yaml, cut, replaced⟩ := replaces parts found
  obtain rfl := Option.some.inj (foundAfter.symm.trans cut)
  rw [← counted]
  exact replaced.keyLines once

theorem setFrontmatterBlockLine_replaces {newBlock : Text}
    (plain : Undelimited (newBlock ++ ['\n'])) (keys : List Text) (source : Text) :
    ReplacesValue keys (newBlock ++ ['\n']) source
      (setFrontmatterBlockLine source keys newBlock) := by
  intro parts found
  obtain ⟨wellCut, -⟩ := splitFrontmatter_eq_some_iff.mp found
  obtain ⟨edited, replaced, textEq⟩ := setBlockText_lines wellCut.yaml_terminated keys
  obtain ⟨cut, pieces⟩ := replaced.splits found (terminated_snoc newBlock) plain
  refine ⟨edited.flatten, ?_, by rw [pieces]; exact replaced⟩
  unfold setFrontmatterBlockLine editFrontmatter
  rw [found]
  simp only
  rw [textEq, cut]

theorem removeFrontmatterBlock_replaces (key source : Text) :
    ReplacesValue [key] [] source (removeFrontmatterBlock source key) := by
  intro parts found
  unfold removeFrontmatterBlock
  rw [found]
  simp only
  cases sets : anySets (splitInclusive parts.yaml) key with
  | true =>
      obtain ⟨edited, replaced, valueEq⟩ := replaceValue_lines
        (List.find?_cons_of_pos sets : [key].find? (anySets (splitInclusive parts.yaml)) = _) []
      obtain ⟨cut, pieces⟩ := replaced.splits found terminated_nil (by simp [splitInclusive])
      rw [valueEq]
      exact ⟨edited.flatten, cut, by rw [pieces]; exact replaced⟩
  | false =>
      rw [replaceValue_unset sets]
      refine ⟨parts.yaml, found, ?_⟩
      unfold ReplacedIn
      rw [List.find?_cons_of_neg (by simp [sets])]
      exact (List.append_nil _).symm

theorem keyLines_cons {key first : Text} (sets : lineSetsKey first key = true)
    (unset : ∀ line ∈ rest, lineSetsKey line key = false) : keyLines key (first :: rest) = 1 := by
  have none := keyLines_eq_zero.mpr unset
  unfold keyLines at none ⊢
  rw [List.countP_cons, none, if_pos sets]

theorem not_setsKey_of_opens {start rest key : Text} (colon : ':' ∉ start)
    (opens : startsWith key start = false) : lineSetsKey (start ++ rest) key = false := by
  apply Bool.eq_false_iff.mpr
  intro sets
  obtain ⟨after, whole⟩ := lineSetsKey_iff.mp sets
  rw [show key ++ ':' :: after = (key ++ [':']) ++ after by simp] at whole
  rcases List.append_eq_append_iff.mp whole with ⟨more, keyed, -⟩ | ⟨more, started, -⟩
  · rcases List.eq_nil_or_concat more with rfl | ⟨front, last, rfl⟩
    · rw [List.append_nil] at keyed
      exact colon (by rw [← keyed]; simp)
    · rw [List.concat_eq_append, ← List.append_assoc] at keyed
      obtain ⟨keyEq, -⟩ := List.append_inj' keyed rfl
      rw [startsWith_iff.mpr ⟨front, keyEq.symm⟩] at opens
      cases opens
  · exact colon (by rw [started]; simp)

theorem flowBlock_stands {Entry : Type} {flow : Entry → Text} {entries : List Entry}
    (absent : '\n' ∉ key) (dash : startsWith key "- ".toList = false)
    (oneLine : ∀ entry ∈ entries, '\n' ∉ flow entry) :
    Undelimited (flowBlock key flow entries ++ ['\n']) ∧
      keyLines key (splitInclusive (flowBlock key flow entries ++ ['\n'])) = 1 := by
  obtain ⟨first, items, pieces, sets, areItems, areLines⟩ := flowBlock_lines absent oneLine
  unfold Undelimited
  rw [pieces]
  constructor
  · intro line member
    rcases List.mem_cons.mp member with rfl | item
    · exact not_isDelimiter_of_sets (areLines line member) sets
    · obtain ⟨rest, rfl⟩ := areItems line item
      exact not_isDelimiter_of_item (areLines _ member)
  · apply keyLines_cons sets
    intro item member
    obtain ⟨rest, rfl⟩ := areItems item member
    exact not_setsKey_of_opens (by decide) dash

theorem setFrontmatterBlockLine_flow {Entry : Type} {flow : Entry → Text} {entries : List Entry}
    (absent : '\n' ∉ key) (dash : startsWith key "- ".toList = false)
    (oneLine : ∀ entry ∈ entries, '\n' ∉ flow entry) (others : List Text) (source : Text) :
    ReplacesValue (key :: others) (flowBlock key flow entries ++ ['\n']) source
        (setFrontmatterBlockLine source (key :: others) (flowBlock key flow entries)) ∧
      LeavesKeyLines key 1 source
        (setFrontmatterBlockLine source (key :: others) (flowBlock key flow entries)) := by
  obtain ⟨plain, once⟩ := flowBlock_stands absent dash oneLine
  have replaces := setFrontmatterBlockLine_replaces plain (key :: others) source
  exact ⟨replaces, replaces.leaves once⟩

/-- Without the line feeds at its end but one, a text keeps its first lines. -/
theorem trimmed_lines {text : Text} (ended : Terminated text)
    (visible : trimEndMatches (· == '\n') text ≠ []) :
    splitInclusive (trimEndMatches (· == '\n') text ++ ['\n']) <+: splitInclusive text := by
  have whole : trimEndMatches (· == '\n') text ++ text.rtakeWhile (· == '\n') = text :=
    List.rdropWhile_append_rtakeWhile
  have last : text.getLast? = some '\n' := by
    rcases terminated_iff_getLast?.mp ended with rfl | last
    · exact absurd rfl visible
    · exact last
  cases feeds : text.rtakeWhile (· == '\n') with
  | nil =>
      rw [feeds, List.append_nil] at whole
      have kept := @List.rdropWhile_last_not _ (· == '\n') text visible
      have same : trimEndMatches (· == '\n') text = text := whole
      rw [List.getLast?_eq_some_getLast (same ▸ visible), Option.some.injEq] at last
      refine absurd ?_ kept
      simp only [trimEndMatches] at same
      simp only [same, last, beq_self_eq_true]
  | cons feed more =>
      obtain rfl : feed = '\n' := by
        have isFeed := List.mem_rtakeWhile_imp (l := text) (p := (· == '\n')) (x := feed)
          (by rw [feeds]; simp)
        simpa using isFeed
      have split : text = (trimEndMatches (· == '\n') text ++ ['\n']) ++ more := by
        rw [List.append_assoc, List.singleton_append, ← feeds, whole]
      have pieces := splitInclusive_append (terminated_snoc (trimEndMatches (· == '\n') text)) more
      rw [← split] at pieces
      exact ⟨splitInclusive more, pieces.symm⟩

section

variable {Float64 : Type} (backend : Backend Float64)

/-- The printer ends its lines, and none of them is a document marker. -/
structure PrintsList (key : Text) (items : List Text) : Prop where
  ended : Terminated (backend.toStr (listValue key items))
  plain : Undelimited (backend.toStr (listValue key items))

/-- A line the printer writes under a key: an item, the rest of one, or a blank
line in one. -/
def IsItemLine (line : Text) : Prop :=
  IsLine line ∧ (line = ['\n'] ∨ startsWith line [' '] = true ∨ startsWith line "- ".toList = true)

/-- The printer writes the key as it is, on a line of its own, and the items under it. -/
structure PrintsBare (key : Text) (items : List Text) : Prop where
  opens : startsWith key [' '] = false ∧ startsWith key "- ".toList = false
  oneLine : '\n' ∉ key
  printed : ∃ lines : List Text, (∀ line ∈ lines, IsItemLine line) ∧
    backend.toStr (listValue key items) = key ++ ":\n".toList ++ lines.flatten

variable {backend} {key : Text} {items : List Text}

theorem PrintsList.undelimited (prints : PrintsList backend key items) :
    Undelimited (listBlock backend key items ++ ['\n']) := by
  by_cases visible : listBlock backend key items = []
  · rw [visible]
    intro line member
    obtain rfl : line = ['\n'] := by simpa [splitInclusive] using member
    decide
  · intro line member
    exact prints.plain line ((trimmed_lines prints.ended visible).mem member)

theorem IsItemLine.unset {line : Text} (item : IsItemLine line) (absent : '\n' ∉ key)
    (opens : startsWith key [' '] = false ∧ startsWith key "- ".toList = false) :
    lineSetsKey line key = false := by
  rcases item.2 with rfl | space | dash
  · have feed : startsWith key ['\n'] = false := by
      apply Bool.eq_false_iff.mpr
      intro starts
      obtain ⟨rest, rfl⟩ := startsWith_iff.mp starts
      exact absent (by simp)
    exact @not_setsKey_of_opens ['\n'] [] key (by decide) feed
  · obtain ⟨rest, rfl⟩ := startsWith_iff.mp space
    exact not_setsKey_of_opens (by decide) opens.1
  · obtain ⟨rest, rfl⟩ := startsWith_iff.mp dash
    exact not_setsKey_of_opens (by decide) opens.2

/-- One line of a list under a bare key sets it. -/
theorem PrintsBare.keyLines_listBlock (bare : PrintsBare backend key items) :
    keyLines key (splitInclusive (listBlock backend key items ++ ['\n'])) = 1 := by
  obtain ⟨lines, areItems, printed⟩ := bare.printed
  have areLines : ∀ line ∈ (key ++ [':'] ++ ['\n']) :: lines, IsLine line := by
    intro line member
    rcases List.mem_cons.mp member with rfl | item
    · exact isLine_snoc (by simp [bare.oneLine])
    · exact (areItems line item).1
  have whole : backend.toStr (listValue key items) =
      ((key ++ [':'] ++ ['\n']) :: lines).flatten := by
    rw [printed, List.flatten_cons]
    simp
  have visible : listBlock backend key items ≠ [] := by
    intro empty
    have feeds := List.rdropWhile_eq_nil_iff.mp empty ':' (by rw [printed]; simp)
    exact absurd feeds (by decide)
  have among : splitInclusive (listBlock backend key items ++ ['\n']) <+:
      (key ++ [':'] ++ ['\n']) :: lines := by
    have front := trimmed_lines (whole ▸ terminated_flatten areLines) visible
    rwa [whole, splitInclusive_flatten_of_lines areLines, ← whole] at front
  cases pieces : splitInclusive (listBlock backend key items ++ ['\n']) with
  | nil =>
      have text := flatten_splitInclusive (listBlock backend key items ++ ['\n'])
      rw [pieces] at text
      simp at text
  | cons first rest =>
      rw [pieces, List.cons_prefix_cons] at among
      obtain ⟨rfl, among⟩ := among
      apply keyLines_cons
      · exact lineSetsKey_iff.mpr ⟨['\n'], by simp⟩
      · intro line member
        exact (areItems line (among.mem member)).unset bare.oneLine bare.opens

end

section

variable {Float64 Date Instant : Type} (backend : Backend Float64)
  (calendar : Calendar Date Instant)

/-- The editors of a value that may span lines replace it in the frontmatter alone
and keep all other lines of it; one line sets the written key afterwards, or none
where the editor removes it. -/
theorem edits_replace_value (dates : ∀ date, '\n' ∉ calendar.dateText date) (source : Text) :
    (∀ key items, items ≠ [] → PrintsList backend key items →
      ReplacesValue [key] (listBlock backend key items ++ ['\n']) source
          (setFrontmatterList backend source key items) ∧
        (PrintsBare backend key items →
          LeavesKeyLines key 1 source (setFrontmatterList backend source key items))) ∧
    (∀ key, ReplacesValue [key] [] source (setFrontmatterList backend source key []) ∧
      LeavesKeyLines key 0 source (setFrontmatterList backend source key [])) ∧
    (∀ entries, entries ≠ [] →
      ReplacesValue ["verified".toList] (verifiedBlock calendar entries ++ ['\n']) source
          (setVerified calendar source entries) ∧
        LeavesKeyLines "verified".toList 1 source (setVerified calendar source entries)) ∧
    setVerified calendar source [] = source ∧
    (∀ acks, acks ≠ [] →
      ReplacesValue [evolveAckKey] (evolveAckBlock calendar acks ++ ['\n']) source
          (setEvolveAck calendar source acks) ∧
        LeavesKeyLines evolveAckKey 1 source (setEvolveAck calendar source acks)) ∧
    (ReplacesValue [evolveAckKey] [] source (setEvolveAck calendar source []) ∧
      LeavesKeyLines evolveAckKey 0 source (setEvolveAck calendar source [])) ∧
    (∀ actor model now,
      ReplacesValue ["generated".toList, "timestamp".toList]
          (generatedFlow calendar ⟨actor, model, some now⟩ ++ ['\n']) source
          (touchGenerated calendar source actor model now) ∧
        LeavesKeyLines "generated".toList 1 source
          (touchGenerated calendar source actor model now)) ∧
    (∀ date,
      ReplacesValue ["stale_after".toList, "review_after".toList]
          ("stale_after: ".toList ++ calendar.dateText date ++ ['\n']) source
          (setStaleAfter calendar source date) ∧
        LeavesKeyLines "stale_after".toList 1 source (setStaleAfter calendar source date)) := by
  refine ⟨?_, ?_, ?_, rfl, ?_, ?_, ?_, ?_⟩
  · intro key items nonempty prints
    rw [setFrontmatterList, if_neg (by simpa using nonempty)]
    have replaces := setFrontmatterBlockLine_replaces prints.undelimited [key] source
    exact ⟨replaces, fun bare => replaces.leaves bare.keyLines_listBlock⟩
  · intro key
    have replaces := removeFrontmatterBlock_replaces key source
    exact ⟨replaces, replaces.leaves rfl⟩
  · intro entries nonempty
    rw [setVerified, if_neg (by simpa using nonempty)]
    exact setFrontmatterBlockLine_flow (by decide) (by decide)
      (fun entry _ => verifiedFlow_oneLine calendar entry) [] source
  · intro acks nonempty
    rw [setEvolveAck, if_neg (by simpa using nonempty)]
    exact setFrontmatterBlockLine_flow (by decide) (by decide)
      (fun ack _ => evolveAckFlow_oneLine calendar ack) [] source
  · have replaces := removeFrontmatterBlock_replaces evolveAckKey source
    exact ⟨replaces, replaces.leaves rfl⟩
  · intro actor model now
    unfold touchGenerated
    rw [generatedFlow_eq]
    exact setFrontmatterBlockLine_flow (by decide) (by decide)
      (fun entry _ => verifiedFlow_oneLine calendar entry) ["timestamp".toList] source
  · intro date
    have oneLine : ∀ text ∈ [calendar.dateText date], '\n' ∉ id text := by simpa using dates date
    exact setFrontmatterBlockLine_flow (by decide) (by decide) oneLine ["review_after".toList]
      source

end

/-- A printer of one list whose key is spelled by `spell` and whose items are bare. -/
def listBackend (spell : Text → Text) : Backend Text where
  fromStr _ := .error []
  toStr value :=
    match value with
    | .mapping [(.string key, .sequence items)] =>
        spell key ++ ":\n".toList ++ items.flatMap fun item =>
          match item with
          | .string text => "- ".toList ++ text ++ ['\n']
          | _ => []
    | _ => []

/-- A calendar of one instant. -/
def noon : Calendar Unit Unit where
  dateText _ := "2026-05-01".toList
  instantText _ := "2026-05-01T12:00:00+00:00".toList

def tagged : Text := "---\ntags:\n- x\n# checked\nreview_after: 2026-01-01\n---\nBody\n".toList

theorem edits_replace_value_tags :
    (ReplacesValue ["tags".toList] "tags:\n- a\n- b\n".toList tagged
        (setFrontmatterList (listBackend id) tagged "tags".toList ["a".toList, "b".toList]) ∧
      LeavesKeyLines "tags".toList 1 tagged
        (setFrontmatterList (listBackend id) tagged "tags".toList ["a".toList, "b".toList])) ∧
    LeavesKeyLines "stale_after".toList 1 tagged (setStaleAfter noon tagged ()) := by
  obtain ⟨list, -, -, -, -, -, -, stale⟩ :=
    edits_replace_value (listBackend id) noon (fun () => by decide) tagged
  have keyLine : IsLine "tags:\n".toList := ⟨"tags:".toList, by decide, rfl⟩
  have areItems : ∀ line ∈ ["- a\n".toList, "- b\n".toList], IsItemLine line := by
    rintro line (_ | ⟨_, _ | ⟨_, ⟨⟩⟩⟩)
    · exact ⟨⟨"- a".toList, by decide, rfl⟩, Or.inr (Or.inr rfl)⟩
    · exact ⟨⟨"- b".toList, by decide, rfl⟩, Or.inr (Or.inr rfl)⟩
  have ended : Terminated ["tags:\n".toList, "- a\n".toList, "- b\n".toList].flatten :=
    terminated_flatten fun line member =>
      (List.mem_cons.mp member).elim (fun same => same ▸ keyLine) fun item => (areItems line item).1
  have plain : Undelimited "tags:\n- a\n- b\n".toList := by
    unfold Undelimited
    decide
  obtain ⟨replaces, leaves⟩ := list "tags".toList ["a".toList, "b".toList] (by decide)
    ⟨ended, plain⟩
  have bare : PrintsBare (listBackend id) "tags".toList ["a".toList, "b".toList] :=
    ⟨by decide, by decide, ["- a\n".toList, "- b\n".toList], areItems, rfl⟩
  exact ⟨⟨replaces, leaves bare⟩, (stale ()).2⟩

/-- A key that some lines of a hand-written history have a comment under. -/
def annotated : Text :=
  "---\nverified:\n# checked twice\n- \x7b by: human:ada \x7d\ntitle: Notes\n---\nBody\n".toList

/-- The comment between a key and its first item goes with the value; a quoted key is
no key line, and an empty list leaves none. -/
theorem comment_under_key_goes :
    ((splitFrontmatter annotated).map fun parts => splitInclusive parts.yaml) =
        some ["verified:\n".toList, "# checked twice\n".toList,
          "- \x7b by: human:ada \x7d\n".toList, "title: Notes\n".toList] ∧
      continuesValue "# checked twice\n".toList = false ∧
      setVerified noon annotated [⟨"human:ada".toList, none, some ()⟩] =
        ("---\nverified: \x7b by: human:ada, at: 2026-05-01T12:00:00+00:00 \x7d\n" ++
          "title: Notes\n---\nBody\n").toList ∧
      setFrontmatterList (listBackend fun key => ['\''] ++ key ++ ['\'']) tagged "123".toList
          ["a".toList] =
        ("---\ntags:\n- x\n# checked\nreview_after: 2026-01-01\n'123':\n- a\n" ++
          "---\nBody\n").toList ∧
      setFrontmatterList (listBackend id) tagged "tags".toList [] =
        "---\n# checked\nreview_after: 2026-01-01\n---\nBody\n".toList := by
  refine ⟨?_, ?_, ?_, ?_, ?_⟩ <;> decide

end Crystalline
