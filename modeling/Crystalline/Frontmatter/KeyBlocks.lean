import Crystalline.Frontmatter.Split
import Crystalline.Yaml

/-!
# Frontmatter as top-level key blocks

`keyBlocks` cuts frontmatter YAML into a preamble and one block for each
top-level key.  Cutting only looks at where lines start, so a preamble and
blocks of the right shape cut back to themselves wherever they are joined.
-/

namespace Crystalline

open Text

/-- One top-level frontmatter key with its exact text. -/
structure KeyBlock (Value : Type) where
  /-- The parsed key, rendered as text for messages. -/
  key : Text
  /-- The parsed key: a block's identity. -/
  parsedKey : Value
  /-- The key line and its continuation lines, line endings included. -/
  text : Text
  /-- The parsed value. -/
  value : Value
  /-- One-based file line of the key line; the opening `---` is line 1. -/
  line : Nat
  deriving DecidableEq

/-- A frontmatter cut into its preamble and key blocks. -/
structure KeyBlocks (Value : Type) where
  /-- Blank and comment lines before the first key. -/
  preamble : Text
  /-- The key blocks in file order, repeats included. -/
  blocks : List (KeyBlock Value)
  deriving DecidableEq

def isLineBreak (char : Char) : Bool := char == '\n' || char == '\r'

/-- What `key_blocks` reads of a line: all but the line ending. -/
def lineContent (line : Text) : Text := trimEndMatches isLineBreak line

/-- Flow style at column 0, which is not a key line. -/
def opensFlow (content : Text) : Bool :=
  startsWith content ['{'] || startsWith content ['[']

def startsKey (content : Text) : Bool :=
  !content.isEmpty &&
    !(startsWith content [' '] || startsWith content ['\t'] ||
      startsWith content ['#']) &&
    content != "-".toList && !startsWith content "- ".toList &&
    !startsWith content "-\t".toList

def isBlankOrComment (content : Text) : Bool :=
  (trim content).isEmpty || startsWith (trim content) ['#']

/-- The loop state of `key_blocks`: the preamble and, for each key line so
far, its line number and the text gathered under it. -/
structure RawCut where
  preamble : Text
  raw : List (Nat × Text)

/-- One line of the loop of `key_blocks`. -/
def RawCut.push (cut : RawCut) (index : Nat) (line : Text) : Option RawCut :=
  let content := lineContent line
  if opensFlow content then none
  else if startsKey content then
    some { cut with raw := cut.raw ++ [(index + 2, line)] }
  else
    match cut.raw.getLast? with
    | some last =>
        some { cut with raw := cut.raw.dropLast ++ [(last.1, last.2 ++ line)] }
    | none =>
        if isBlankOrComment content then
          some { cut with preamble := cut.preamble ++ line }
        else none

/-- The loop of `key_blocks` over the lines from number `index` on. -/
def cutLines (cut : RawCut) (index : Nat) : List Text → Option RawCut
  | [] => some cut
  | line :: lines =>
      (cut.push index line).bind fun next => cutLines next (index + 1) lines

section Backend

variable {Value : Type} (yaml : Yaml Value)

def keyText (key : Value) : Text :=
  match yaml.asString key with
  | some text => text
  | none => trimEnd (yaml.toStr key)

/-- A block reads on its own as a mapping of exactly one entry. -/
def readBlock (raw : Nat × Text) : Option (KeyBlock Value) :=
  match yaml.readMapping raw.2 with
  | some [(key, value)] =>
      some { key := keyText yaml key, parsedKey := key, text := raw.2,
             value := value, line := raw.1 }
  | _ => none

/-- Cut frontmatter YAML into key blocks, or `none` when it cannot be cut. -/
def keyBlocks (text : Text) : Option (KeyBlocks Value) :=
  (cutLines { preamble := [], raw := [] } 0 (splitInclusive text)).bind
    fun cut => (cut.raw.mapM (readBlock yaml)).map fun blocks =>
      { preamble := cut.preamble, blocks := blocks }

end Backend

/-- A line that starts a block. -/
def IsKeyLine (line : Text) : Prop :=
  opensFlow (lineContent line) = false ∧ startsKey (lineContent line) = true

/-- A line that stays with the block above it. -/
def IsContinuation (line : Text) : Prop :=
  opensFlow (lineContent line) = false ∧ startsKey (lineContent line) = false

/-- A line that may stand before the first block. -/
def IsPreambleLine (line : Text) : Prop :=
  IsContinuation line ∧ isBlankOrComment (lineContent line) = true

/-- The lines of one block. -/
def IsGroup (group : List Text) : Prop :=
  ∃ first rest, group = first :: rest ∧ IsKeyLine first ∧
    ∀ line ∈ rest, IsContinuation line

/-- The raw blocks of groups of lines that start at line `index`. -/
def numbered : Nat → List (List Text) → List (Nat × Text)
  | _, [] => []
  | index, group :: groups =>
      (index + 2, group.flatten) :: numbered (index + group.length) groups

variable {line : Text} {lines : List Text}

theorem push_keyLine (isKey : IsKeyLine line) (cut : RawCut) (index : Nat) :
    cut.push index line = some { cut with raw := cut.raw ++ [(index + 2, line)] } := by
  simp [RawCut.push, isKey.1, isKey.2]

theorem push_continuation (continues : IsContinuation line) (preamble : Text)
    (raw : List (Nat × Text)) (last : Nat × Text) (index : Nat) :
    RawCut.push ⟨preamble, raw ++ [last]⟩ index line =
      some ⟨preamble, raw ++ [(last.1, last.2 ++ line)]⟩ := by
  simp [RawCut.push, continues.1, continues.2]

theorem push_preambleLine (isPreamble : IsPreambleLine line) (preamble : Text) (index : Nat) :
    RawCut.push ⟨preamble, []⟩ index line = some ⟨preamble ++ line, []⟩ := by
  simp [RawCut.push, isPreamble.1.1, isPreamble.1.2, isPreamble.2]

theorem cutLines_continuations {rest : List Text}
    (continue_ : ∀ line ∈ rest, IsContinuation line) (more : List Text)
    (preamble : Text) (raw : List (Nat × Text)) (last : Nat × Text) (index : Nat) :
    cutLines ⟨preamble, raw ++ [last]⟩ index (rest ++ more) =
      cutLines ⟨preamble, raw ++ [(last.1, last.2 ++ rest.flatten)]⟩
        (index + rest.length) more := by
  induction rest generalizing last index with
  | nil => simp
  | cons line rest ih =>
      have tail := ih (fun other member =>
        continue_ other (List.mem_cons_of_mem _ member))
        (last.1, last.2 ++ line) (index + 1)
      rw [List.cons_append, cutLines,
        push_continuation (continue_ line (by simp)), Option.bind_some, tail]
      simp [Nat.add_assoc, Nat.add_comm 1]

theorem cutLines_groups {groups : List (List Text)}
    (areGroups : ∀ group ∈ groups, IsGroup group) (preamble : Text)
    (raw : List (Nat × Text)) (index : Nat) :
    cutLines ⟨preamble, raw⟩ index groups.flatten =
      some ⟨preamble, raw ++ numbered index groups⟩ := by
  induction groups generalizing raw index with
  | nil => simp [cutLines, numbered]
  | cons group groups ih =>
      obtain ⟨first, rest, rfl, isKey, continue_⟩ := areGroups group (by simp)
      have tail := ih fun other member =>
        areGroups other (List.mem_cons_of_mem _ member)
      rw [List.flatten_cons, List.cons_append, cutLines, push_keyLine isKey,
        Option.bind_some, cutLines_continuations continue_, tail]
      simp [numbered, Nat.add_assoc, Nat.add_comm 1]

theorem cutLines_preamble (arePreamble : ∀ line ∈ lines, IsPreambleLine line) (more : List Text)
    (preamble : Text) (index : Nat) :
    cutLines ⟨preamble, []⟩ index (lines ++ more) =
      cutLines ⟨preamble ++ lines.flatten, []⟩ (index + lines.length) more := by
  induction lines generalizing preamble index with
  | nil => simp
  | cons line lines ih =>
      have tail := ih (fun other member =>
        arePreamble other (List.mem_cons_of_mem _ member))
        (preamble ++ line) (index + 1)
      rw [List.cons_append, cutLines,
        push_preambleLine (arePreamble line (by simp)), Option.bind_some, tail]
      simp [Nat.add_assoc, Nat.add_comm 1]

variable {preamble : Text} {cut : RawCut}

theorem cutLines_open_block {raw : List (Nat × Text)} {last : Nat × Text} {index : Nat}
    (done : cutLines ⟨preamble, raw ++ [last]⟩ index lines = some cut) :
    ∃ (rest : List Text) (groups : List (List Text)),
      lines = rest ++ groups.flatten ∧ (∀ line ∈ rest, IsContinuation line) ∧
        (∀ group ∈ groups, IsGroup group) ∧
        cut = ⟨preamble, raw ++ [(last.1, last.2 ++ rest.flatten)] ++
          numbered (index + rest.length) groups⟩ := by
  induction lines generalizing raw last index with
  | nil =>
      simp only [cutLines, Option.some.injEq] at done
      exact ⟨[], [], by simp, by simp, by simp, by simp [numbered, ← done]⟩
  | cons line lines ih =>
      rw [cutLines] at done
      cases flow : opensFlow (lineContent line) with
      | true => simp [RawCut.push, flow] at done
      | false =>
          cases starts : startsKey (lineContent line) with
          | true =>
              rw [push_keyLine ⟨flow, starts⟩, Option.bind_some] at done
              obtain ⟨rest, groups, rfl, continue_, areGroups, rfl⟩ := ih done
              refine ⟨[], (line :: rest) :: groups, by simp, by simp, ?_, ?_⟩
              · intro group member
                rcases List.mem_cons.mp member with rfl | later
                · exact ⟨line, rest, rfl, ⟨flow, starts⟩, continue_⟩
                · exact areGroups group later
              · simp [numbered, Nat.add_assoc, Nat.add_comm 1]
          | false =>
              rw [push_continuation ⟨flow, starts⟩, Option.bind_some] at done
              obtain ⟨rest, groups, rfl, continue_, areGroups, rfl⟩ := ih done
              refine ⟨line :: rest, groups, by simp, ?_, areGroups, ?_⟩
              · intro other member
                rcases List.mem_cons.mp member with rfl | later
                · exact ⟨flow, starts⟩
                · exact continue_ other later
              · simp [Nat.add_assoc, Nat.add_comm 1]

/-- A cut groups the lines: first the preamble, then a group for each block. -/
theorem cutLines_eq_some {index : Nat} (done : cutLines ⟨preamble, []⟩ index lines = some cut) :
    ∃ (before : List Text) (groups : List (List Text)),
      lines = before ++ groups.flatten ∧ (∀ line ∈ before, IsPreambleLine line) ∧
        (∀ group ∈ groups, IsGroup group) ∧
        cut = ⟨preamble ++ before.flatten,
          numbered (index + before.length) groups⟩ := by
  induction lines generalizing preamble index with
  | nil =>
      simp only [cutLines, Option.some.injEq] at done
      exact ⟨[], [], by simp, by simp, by simp, by simp [numbered, ← done]⟩
  | cons line lines ih =>
      rw [cutLines] at done
      cases flow : opensFlow (lineContent line) with
      | true => simp [RawCut.push, flow] at done
      | false =>
          cases starts : startsKey (lineContent line) with
          | true =>
              rw [push_keyLine ⟨flow, starts⟩, Option.bind_some] at done
              rw [← List.nil_append [_]] at done
              obtain ⟨rest, groups, rfl, continue_, areGroups, rfl⟩ :=
                cutLines_open_block done
              refine ⟨[], (line :: rest) :: groups, by simp, by simp, ?_, ?_⟩
              · intro group member
                rcases List.mem_cons.mp member with rfl | later
                · exact ⟨line, rest, rfl, ⟨flow, starts⟩, continue_⟩
                · exact areGroups group later
              · simp [numbered, Nat.add_assoc, Nat.add_comm 1]
          | false =>
              cases blank : isBlankOrComment (lineContent line) with
              | false => simp [RawCut.push, flow, starts, blank] at done
              | true =>
                  rw [push_preambleLine ⟨⟨flow, starts⟩, blank⟩, Option.bind_some] at done
                  obtain ⟨before, groups, rfl, arePreamble, areGroups, rfl⟩ :=
                    ih done
                  refine ⟨line :: before, groups, by simp, ?_, areGroups, ?_⟩
                  · intro other member
                    rcases List.mem_cons.mp member with rfl | later
                    · exact ⟨⟨flow, starts⟩, blank⟩
                    · exact arePreamble other later
                  · simp [Nat.add_assoc, Nat.add_comm 1]

/-- The shape of a block's text. -/
def IsBlockText (text : Text) : Prop :=
  Terminated text ∧ IsGroup (splitInclusive text)

/-- The shape of a preamble. -/
def IsPreambleText (text : Text) : Prop :=
  Terminated text ∧ ∀ line ∈ splitInclusive text, IsPreambleLine line

/-- The blocks with the line numbers they have when the first of them starts
after `index` lines. -/
def renumber {Value : Type} : Nat → List (KeyBlock Value) → List (KeyBlock Value)
  | _, [] => []
  | index, block :: blocks =>
      { block with line := index + 2 } ::
        renumber (index + (splitInclusive block.text).length) blocks

/-- The texts of the blocks, one after the other. -/
def joinBlocks {Value : Type} (blocks : List (KeyBlock Value)) : Text :=
  (blocks.map KeyBlock.text).flatten

section Backend

variable {Value : Type} (yaml : Yaml Value)

/-- The block holds what its text reads as. -/
def KeyBlock.Reads (block : KeyBlock Value) : Prop :=
  yaml.readMapping block.text = some [(block.parsedKey, block.value)] ∧
    block.key = keyText yaml block.parsedKey

/-- A block that cuts back to itself. -/
def KeyBlock.WellCut (block : KeyBlock Value) : Prop :=
  IsBlockText block.text ∧ block.Reads yaml

variable {yaml}

theorem readBlock_eq_some_iff {raw : Nat × Text} {block : KeyBlock Value} :
    readBlock yaml raw = some block ↔
      block.text = raw.2 ∧ block.line = raw.1 ∧ block.Reads yaml := by
  unfold readBlock KeyBlock.Reads
  constructor
  · intro read
    split at read
    · next key value mapping =>
        obtain rfl := Option.some.inj read
        exact ⟨rfl, rfl, mapping, rfl⟩
    · simp at read
  · rintro ⟨textEq, lineEq, mapping, keyEq⟩
    obtain ⟨key, parsedKey, text, value, line⟩ := block
    simp only at textEq lineEq mapping keyEq
    subst textEq lineEq keyEq
    simp [mapping]

variable {blocks : List (KeyBlock Value)}

theorem mapM_readBlock_numbered (reads : ∀ block ∈ blocks, block.Reads yaml) (index : Nat) :
    (numbered index (blocks.map fun block => splitInclusive block.text)).mapM
        (readBlock yaml) = some (renumber index blocks) := by
  induction blocks generalizing index with
  | nil => rfl
  | cons block blocks ih =>
      have head : readBlock yaml (index + 2, block.text) =
          some { block with line := index + 2 } :=
        readBlock_eq_some_iff.mpr ⟨rfl, rfl, reads block (by simp)⟩
      have tail := ih (fun other member =>
        reads other (List.mem_cons_of_mem _ member))
        (index + (splitInclusive block.text).length)
      simp [numbered, renumber, head, tail]

theorem splitInclusive_joinBlocks (ended : ∀ block ∈ blocks, Terminated block.text) :
    splitInclusive (joinBlocks blocks) =
      (blocks.map fun block => splitInclusive block.text).flatten := by
  induction blocks with
  | nil => rfl
  | cons block blocks ih =>
      have tail := ih fun other member => ended other (List.mem_cons_of_mem _ member)
      rw [joinBlocks, List.map_cons, List.flatten_cons,
        splitInclusive_append (ended block (by simp)), ← joinBlocks, tail,
        List.map_cons, List.flatten_cons]

theorem keyBlocks_join {preamble : Text} (isPreamble : IsPreambleText preamble)
    (wellCut : ∀ block ∈ blocks, block.WellCut yaml) :
    keyBlocks yaml (preamble ++ joinBlocks blocks) =
      some ⟨preamble, renumber (splitInclusive preamble).length blocks⟩ := by
  have groups : ∀ group ∈ blocks.map fun block => splitInclusive block.text,
      IsGroup group := by
    intro group member
    obtain ⟨block, blockMember, rfl⟩ := List.mem_map.mp member
    exact (wellCut block blockMember).1.2
  have pieces := splitInclusive_joinBlocks fun block member =>
    (wellCut block member).1.1
  rw [keyBlocks, splitInclusive_append isPreamble.1, pieces,
    cutLines_preamble isPreamble.2, cutLines_groups groups]
  simp only [List.nil_append, flatten_splitInclusive, Nat.zero_add,
    Option.bind_some,
    mapM_readBlock_numbered fun block member => (wellCut block member).2,
    Option.map_some]

theorem mapM_readBlock_eq_some {groups : List (List Text)} {index : Nat}
    (read : (numbered index groups).mapM (readBlock yaml) = some blocks) :
    blocks.map KeyBlock.text = groups.map List.flatten ∧
      ∀ block ∈ blocks, block.Reads yaml := by
  induction groups generalizing index blocks with
  | nil =>
      obtain rfl : [] = blocks := by simpa [numbered] using read
      simp
  | cons group groups ih =>
      simp only [numbered, List.mapM_cons, Option.bind_eq_bind,
        Option.pure_def, Option.bind_eq_some_iff, Option.some.injEq] at read
      obtain ⟨block, headRead, others, tailRead, rfl⟩ := read
      obtain ⟨textEq, -, reads⟩ := readBlock_eq_some_iff.mp headRead
      obtain ⟨textsEq, othersRead⟩ := ih tailRead
      refine ⟨by simp [textEq, textsEq], ?_⟩
      intro other member
      rcases List.mem_cons.mp member with rfl | later
      · exact reads
      · exact othersRead other later

/-- What a cut of ended lines gives: the parts have their shapes and
concatenate back to the YAML. -/
theorem keyBlocks_eq_some {text : Text} {cut : KeyBlocks Value}
    (terminated : Terminated text) (done : keyBlocks yaml text = some cut) :
    text = cut.preamble ++ joinBlocks cut.blocks ∧
      IsPreambleText cut.preamble ∧
      ∀ block ∈ cut.blocks, block.WellCut yaml := by
  simp only [keyBlocks, Option.bind_eq_some_iff, Option.map_eq_some_iff] at done
  obtain ⟨raw, rawEq, blocks, read, rfl⟩ := done
  obtain ⟨before, groups, pieces, arePreamble, areGroups, rfl⟩ :=
    cutLines_eq_some rawEq
  simp only [List.nil_append, Nat.zero_add] at read ⊢
  obtain ⟨textsEq, reads⟩ := mapM_readBlock_eq_some read
  have allLines : ∀ line ∈ before ++ groups.flatten, IsLine line := by
    rw [← pieces]
    exact terminated
  have beforeLines : ∀ line ∈ before, IsLine line := fun line member =>
    allLines line (by simp [member])
  refine ⟨?_, ⟨terminated_flatten beforeLines, ?_⟩, ?_⟩
  · rw [joinBlocks, textsEq, ← flatten_splitInclusive text, pieces,
      List.flatten_append, List.flatten_flatten]
  · rw [splitInclusive_flatten_of_lines beforeLines]
    exact arePreamble
  · intro block member
    have textMember : block.text ∈ groups.map List.flatten :=
      textsEq ▸ List.mem_map_of_mem member
    obtain ⟨group, groupMember, textEq⟩ := List.mem_map.mp textMember
    have groupLines : ∀ line ∈ group, IsLine line := fun line lineMember =>
      allLines line (List.mem_append_right _
        (List.mem_flatten.mpr ⟨group, groupMember, lineMember⟩))
    refine ⟨?_, reads block member⟩
    rw [← textEq]
    refine ⟨terminated_flatten groupLines, ?_⟩
    rw [splitInclusive_flatten_of_lines groupLines]
    exact areGroups group groupMember

end Backend

end Crystalline
