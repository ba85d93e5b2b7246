import Crystalline.Frontmatter.KeyBlocks
import Crystalline.Yaml.Value

/-!
# The frontmatter editors

How a list, a trail, acknowledgments, write provenance and a date are written
into a frontmatter: their text, the lines of the old value and the place of the
new block.  The calendar is a parameter.
-/

namespace Crystalline

open Text

/-- How the dates and instants of the frontmatter are printed. -/
structure Calendar (Date Instant : Type) where
  /-- `format("%Y-%m-%d")`. -/
  dateText : Date → Text
  /-- `to_rfc3339`. -/
  instantText : Instant → Text

/-- Write provenance. -/
structure Generated (Instant : Type) where
  writtenBy : Text
  model : Option Text
  writtenAt : Option Instant
  deriving DecidableEq

/-- One verification. -/
structure Verified (Instant : Type) where
  writtenBy : Text
  model : Option Text
  writtenAt : Option Instant
  deriving DecidableEq

/-- One acknowledged finding. -/
structure EvolveAck (Instant : Type) where
  rule : Text
  scope : Option Text
  note : Option Text
  writtenBy : Text
  writtenAt : Option Instant
  deriving DecidableEq

/-- A character `flow_scalar` writes bare. -/
def isBareChar (char : Char) : Bool :=
  isAsciiAlphanumeric char || char == '.' || char == '_' || char == '-' ||
    char == '/' || char == '+' || char == ':' || char == '@'

/-- Whether `flow_scalar` leaves a value as it is. -/
def isBare (value : Text) : Bool :=
  !value.isEmpty && value.all isBareChar && !startsWith value [':'] &&
    !startsWith value ['-'] && !endsWith value [':']

/-- A hexadecimal digit in lower case. -/
def hexDigit (value : Nat) : Char :=
  if value < 10 then Char.ofNat (0x30 + value) else Char.ofNat (0x61 + (value - 10))

/-- One character between double quotes. -/
def escapeChar (char : Char) : Text :=
  if char = '\\' then ['\\', '\\']
  else if char = '"' then ['\\', '"']
  else if char = '\n' then ['\\', 'n']
  else if char = '\r' then ['\\', 'r']
  else if char = '\t' then ['\\', 't']
  else if char.toNat < 0x20 ∨ char.toNat = 0x7F then
    ['\\', 'x', hexDigit (char.toNat / 16), hexDigit (char.toNat % 16)]
  else [char]

def flowScalar (value : Text) : Text :=
  if isBare value then value
  else '"' :: value.flatMap escapeChar ++ ['"']

section

variable {Date Instant : Type} (calendar : Calendar Date Instant)

/-- A key with its value, when there is one. -/
def flowPart (key : Text) (value : Option Text) : Text :=
  match value with
  | some text => ", ".toList ++ key ++ ": ".toList ++ flowScalar text
  | none => []

/-- Render a whole `generated` line, key included. -/
def generatedFlow (generated : Generated Instant) : Text :=
  "generated: \x7b by: ".toList ++ flowScalar generated.writtenBy ++
    flowPart "model".toList generated.model ++
    flowPart "at".toList (generated.writtenAt.map calendar.instantText) ++ " \x7d".toList

/-- Render one `verified` entry, without the key. -/
def verifiedFlow (entry : Verified Instant) : Text :=
  "\x7b by: ".toList ++ flowScalar entry.writtenBy ++
    flowPart "model".toList entry.model ++
    flowPart "at".toList (entry.writtenAt.map calendar.instantText) ++ " \x7d".toList

/-- A whole block: one entry on the key's own line, several as a sequence. -/
def flowBlock {Entry : Type} (key : Text) (flow : Entry → Text) (entries : List Entry) :
    Text :=
  match entries with
  | [only] => key ++ ": ".toList ++ flow only
  | entries => key ++ ":".toList ++ entries.flatMap fun entry => "\n- ".toList ++ flow entry

def verifiedBlock (entries : List (Verified Instant)) : Text :=
  flowBlock "verified".toList (verifiedFlow calendar) entries

/-- The frontmatter key of the acknowledgments. -/
def evolveAckKey : Text := "evolve_ack".toList

/-- Render one `evolve_ack` entry, without the key. -/
def evolveAckFlow (ack : EvolveAck Instant) : Text :=
  "\x7b rule: ".toList ++ flowScalar ack.rule ++
    flowPart "scope".toList (ack.scope.filter fun text => !text.isEmpty) ++
    flowPart "note".toList (ack.note.filter fun text => !text.isEmpty) ++
    ", by: ".toList ++ flowScalar ack.writtenBy ++
    flowPart "at".toList (ack.writtenAt.map calendar.instantText) ++ " \x7d".toList

def evolveAckBlock (entries : List (EvolveAck Instant)) : Text :=
  flowBlock evolveAckKey (evolveAckFlow calendar) entries

end

def lineSetsKey (line key : Text) : Bool :=
  match stripPrefix key line with
  | some rest => startsWith rest [':']
  | none => false

/-- A line that continues the value of the key above it. -/
def isValueContinuation (line : Text) : Bool :=
  let line := trimEndMatches (· == '\r') line
  startsWith line [' '] || startsWith line ['\t'] || line == "-".toList ||
    startsWith line "- ".toList || startsWith line "-\t".toList

/-- How far `replace_value` is: the key has not been seen, its old value is
being dropped, or the old value is behind. -/
inductive Phase where
  | before
  | dropping
  | behind
  deriving DecidableEq

/-- The loop of `replace_value` over the lines; `held` are the blank and
comment lines that wait for the value to continue or end. -/
def replaceLines (key replacement : Text) :
    Phase → (held : Text) → List Text → Option Text
  | .before, _, [] => none
  | _, held, [] => some held
  | .before, held, line :: lines =>
      if lineSetsKey (lineContent line) key then
        (replaceLines key replacement .dropping held lines).map (replacement ++ ·)
      else (replaceLines key replacement .before held lines).map (line ++ ·)
  | .dropping, held, line :: lines =>
      if isValueContinuation (lineContent line) then
        replaceLines key replacement .dropping [] lines
      else if (trim (lineContent line)).isEmpty || startsWith (lineContent line) ['#'] then
        replaceLines key replacement .dropping (held ++ line) lines
      else (replaceLines key replacement .behind [] lines).map (held ++ line ++ ·)
  | .behind, held, line :: lines =>
      (replaceLines key replacement .behind held lines).map (line ++ ·)

def replaceValue (raw key replacement : Text) : Option Text :=
  replaceLines key replacement .before [] (splitInclusive raw)

/-- The first of `keys` that some line of the frontmatter sets. -/
def targetKey (raw : Text) (keys : List Text) : Option Text :=
  keys.find? fun key =>
    (splitInclusive raw).any fun line => lineSetsKey (withoutNewline line) key

/-- The frontmatter with the value of the first key among `keys` replaced by
`newBlock`, or with `newBlock` at its end. -/
def setBlockText (raw : Text) (keys : List Text) (newBlock : Text) : Text :=
  let replacement := newBlock ++ ['\n']
  match (targetKey raw keys).bind fun key => replaceValue raw key replacement with
  | some newRaw => newRaw
  | none =>
      (if !raw.isEmpty && !endsWith raw ['\n'] then raw ++ ['\n'] else raw) ++ replacement

/-- A source with its frontmatter edited, or with a new block of `fresh`. -/
def editFrontmatter (source : Text) (edit : Text → Text) (fresh : Text) : Text :=
  match splitFrontmatter source with
  | none => "---\n".toList ++ fresh ++ "\n---\n".toList ++ source
  | some parts =>
      parts.openLine ++ edit parts.yaml ++ (parts.closeLine ++ parts.body)

def setFrontmatterBlockLine (source : Text) (keys : List Text) (newBlock : Text) : Text :=
  editFrontmatter source (fun raw => setBlockText raw keys newBlock) newBlock

def setFrontmatterBlock (source key newBlock : Text) : Text :=
  setFrontmatterBlockLine source [key] newBlock

/-- Remove a key with every line of its value. -/
def removeFrontmatterBlock (source key : Text) : Text :=
  match splitFrontmatter source with
  | none => source
  | some parts =>
      match replaceValue parts.yaml key [] with
      | some newRaw => parts.openLine ++ newRaw ++ (parts.closeLine ++ parts.body)
      | none => source

section

variable {Date Instant : Type} (calendar : Calendar Date Instant)

def setVerified (source : Text) (entries : List (Verified Instant)) : Text :=
  if entries.isEmpty then source
  else setFrontmatterBlock source "verified".toList (verifiedBlock calendar entries)

def setEvolveAck (source : Text) (entries : List (EvolveAck Instant)) : Text :=
  if entries.isEmpty then removeFrontmatterBlock source evolveAckKey
  else setFrontmatterBlock source evolveAckKey (evolveAckBlock calendar entries)

def setStaleAfter (source : Text) (date : Date) : Text :=
  setFrontmatterBlockLine source ["stale_after".toList, "review_after".toList]
    ("stale_after: ".toList ++ calendar.dateText date)

def touchGenerated (source actor : Text) (model : Option Text) (now : Instant) : Text :=
  setFrontmatterBlockLine source ["generated".toList, "timestamp".toList]
    (generatedFlow calendar
      { writtenBy := actor, model := model, writtenAt := some now })

end

section

variable {Float64 : Type} (backend : Backend Float64)

/-- A mapping of one key with a list of texts. -/
def listValue (key : Text) (items : List Text) : Value Float64 :=
  .mapping [(.string key, .sequence (items.map .string))]

/-- A key with its items as a block list, without the line feeds at its end. -/
def listBlock (key : Text) (items : List Text) : Text :=
  trimEndMatches (· == '\n') (backend.toStr (listValue key items))

def setFrontmatterList (source key : Text) (items : List Text) : Text :=
  if items.isEmpty then removeFrontmatterBlock source key
  else setFrontmatterBlock source key (listBlock backend key items)

end

variable {line key : Text}

theorem lineSetsKey_iff : lineSetsKey line key = true ↔ ∃ rest, line = key ++ ':' :: rest := by
  unfold lineSetsKey
  constructor
  · intro sets
    split at sets
    · next rest found =>
        obtain ⟨after, rfl⟩ := startsWith_iff.mp sets
        exact ⟨after, stripPrefix_eq_some_iff.mp found⟩
    · simp at sets
  · rintro ⟨rest, rfl⟩
    rw [stripPrefix_eq_some_iff.mpr rfl]
    exact startsWith_iff.mpr ⟨rest, rfl⟩

theorem lineContent_append (start : Text) (ends : ∃ init last, start = init ++ [last] ∧
    isLineBreak last = false) (rest : Text) :
    lineContent (start ++ rest) = start ++ lineContent rest := by
  obtain ⟨init, last, rfl, kept⟩ := ends
  induction rest using List.reverseRecOn with
  | nil => simp [lineContent, trimEndMatches, kept]
  | append_singleton rest char ih =>
      rw [← List.append_assoc]
      simp only [lineContent, trimEndMatches] at ih ⊢
      cases breaks : isLineBreak char with
      | true => rw [List.rdropWhile_concat_pos _ _ _ breaks,
          List.rdropWhile_concat_pos _ _ _ breaks, ih]
      | false =>
          rw [List.rdropWhile_concat_neg _ _ _ (by simp [breaks]),
            List.rdropWhile_concat_neg _ _ _ (by simp [breaks]), List.append_assoc]

variable {line : Text}

theorem lineContent_of_isDelimiter (isLine : IsLine line) (delimits : isDelimiter line = true) :
    lineContent line = "---".toList := by
  obtain ⟨body, absent, rfl⟩ := isLine
  have whole : withoutNewline (body ++ ['\n']) = body := by
    unfold withoutNewline
    rw [stripSuffix_eq_some_iff.mpr rfl]
    rfl
  rw [isDelimiter, whole, beq_iff_eq] at delimits
  have split : body = "---".toList ++ body.rtakeWhile (· == '\r') := by
    rw [← delimits]
    exact List.rdropWhile_append_rtakeWhile.symm
  have breaks : lineContent (body.rtakeWhile (· == '\r') ++ ['\n']) = [] := by
    apply List.rdropWhile_eq_nil_iff.mpr
    intro char member
    rcases List.mem_append.mp member with carriage | feed
    · have isReturn := List.mem_rtakeWhile_imp carriage
      simp [isLineBreak, isReturn]
    · simp [isLineBreak, List.mem_singleton.mp feed]
  have content := lineContent_append "---".toList
    ⟨"--".toList, '-', rfl, by decide⟩ (body.rtakeWhile (· == '\r') ++ ['\n'])
  rw [split, List.append_assoc, content, breaks]
  rfl

theorem not_isDelimiter_of_content (isLine : IsLine line)
    (other : lineContent line ≠ "---".toList) :
    isDelimiter line = false := by
  apply Bool.eq_false_iff.mpr
  intro delimits
  exact other (lineContent_of_isDelimiter isLine delimits)

theorem lineContent_front (line : Text) : lineContent line <+: line :=
  List.rdropWhile_prefix _ line

theorem lineSetsKey_lineContent (line key : Text) :
    lineSetsKey (lineContent line) key = lineSetsKey line key := by
  apply Bool.eq_iff_iff.mpr
  rw [lineSetsKey_iff, lineSetsKey_iff]
  constructor
  · rintro ⟨rest, contentEq⟩
    obtain ⟨ending, lineEq⟩ := lineContent_front line
    exact ⟨rest ++ ending, by rw [← lineEq, contentEq]; simp⟩
  · rintro ⟨rest, rfl⟩
    have ends : ∃ init last, key ++ [':'] = init ++ [last] ∧ isLineBreak last = false :=
      ⟨key, ':', rfl, by decide⟩
    refine ⟨lineContent rest, ?_⟩
    have content := lineContent_append (key ++ [':']) ends rest
    simpa using content

theorem lineSetsKey_withoutNewline (isLine : IsLine line) (key : Text) :
    lineSetsKey (withoutNewline line) key = lineSetsKey line key := by
  obtain ⟨body, absent, rfl⟩ := isLine
  have same : lineContent (body ++ ['\n']) = lineContent body :=
    List.rdropWhile_concat_pos _ _ _ (by decide)
  rw [withoutNewline_snoc, ← lineSetsKey_lineContent body,
    ← lineSetsKey_lineContent (body ++ ['\n']), same]

theorem not_isDelimiter_of_sets (isLine : IsLine line) (sets : lineSetsKey line key = true) :
    isDelimiter line = false := by
  apply not_isDelimiter_of_content isLine
  intro delimits
  rw [← lineSetsKey_lineContent, delimits] at sets
  obtain ⟨rest, whole⟩ := lineSetsKey_iff.mp sets
  have colon : ':' ∈ "---".toList := by
    rw [whole]
    simp
  exact absurd colon (by decide)

theorem not_isDelimiter_of_item {rest : Text} (isLine : IsLine ("- ".toList ++ rest)) :
    isDelimiter ("- ".toList ++ rest) = false := by
  apply not_isDelimiter_of_content isLine
  rw [lineContent_append "- ".toList ⟨['-'], ' ', rfl, by decide⟩]
  intro delimits
  have second : ' ' = '-' := (List.cons.inj (List.cons.inj delimits).2).1
  exact absurd second (by decide)

/-- A continuation line of a value, as the loop reads it. -/
def continuesValue (line : Text) : Bool := isValueContinuation (lineContent line)

theorem replaceLines_behind (key replacement : Text) (rest : List Text) :
    replaceLines key replacement .behind [] rest = some rest.flatten := by
  induction rest with
  | nil => rfl
  | cons line rest ih => simp [replaceLines, ih]

theorem replaceLines_before {before : List Text} {key : Text}
    (unset : ∀ line ∈ before, lineSetsKey (lineContent line) key = false)
    (replacement : Text) (more : List Text) :
    replaceLines key replacement .before [] (before ++ more) =
      (replaceLines key replacement .before [] more).map (before.flatten ++ ·) := by
  induction before with
  | nil => simp
  | cons line before ih =>
      have later := ih fun other member => unset other (List.mem_cons_of_mem _ member)
      simp [replaceLines, unset line (by simp), later, Option.map_map, Function.comp_def]

end Crystalline
