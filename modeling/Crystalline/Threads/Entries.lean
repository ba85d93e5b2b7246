import Crystalline.Text.LineEndings

/-!
# Entries read back

Reading is a fold over the lines, so what an entry adds is independent of the
text before it: the lines `renderEntry` writes add exactly one entry to any
history.
-/

namespace Crystalline.Threads

open Text

/-- How an anchor names its section. -/
inductive SectionRef where
  | id (key : Text)
  | heading (path : Text)
  deriving DecidableEq

structure Anchor where
  sectionRef : SectionRef
  quote : Option Text
  /-- Which occurrence of the quote, 1-based. -/
  occurrence : Nat
  deriving DecidableEq

inductive ThreadStatus where
  | opened
  | resolved
  deriving DecidableEq

def ThreadStatus.asStr : ThreadStatus → Text
  | opened => "open".toList
  | resolved => "resolved".toList

inductive EntryKind where
  | comment
  | resolve
  | reopen
  deriving DecidableEq

def EntryKind.asStr : EntryKind → Text
  | comment => "comment".toList
  | resolve => "resolve".toList
  | reopen => "reopen".toList

def EntryKind.parse (word : Text) : Option EntryKind :=
  if word = "comment".toList then some comment
  else if word = "resolve".toList then some resolve
  else if word = "reopen".toList then some reopen
  else none

structure Author where
  name : Text
  agent : Bool
  deriving DecidableEq

structure Entry where
  /-- The entry's `at`: an RFC 3339 instant. -/
  writtenAt : Text
  kind : EntryKind
  author : Author
  text : Text
  deriving DecidableEq

structure Thread where
  id : Text
  anchor : Anchor
  status : ThreadStatus
  entries : List Entry
  deriving DecidableEq

/-- The yaml block of one thread. -/
structure Meta where
  sectionId : Option Text
  heading : Option Text
  quote : Option Text
  occurrence : Nat
  status : ThreadStatus
  deriving DecidableEq

/-- The YAML library at `Meta`: `to_string` and `from_str`. -/
structure MetaYaml where
  toStr : Meta → Option Text
  fromStr : Text → Option Meta

inductive ThreadError where
  | noThread (id : Text)
  | refused (why : Text)
  deriving DecidableEq

def breaksEntryLine (char : Char) : Bool :=
  char == '(' || char == ')' || char == ':' || char == '\n' || char == '\r' ||
    char == ','

def sanitizeName (name : Text) : Text :=
  let cleaned := name.map fun char => if breaksEntryLine char then ' ' else char
  let joined := [' '].intercalate (splitWhitespace cleaned)
  if joined.isEmpty then "someone".toList else joined

/-- The word for who wrote an entry. -/
def Author.who (author : Author) : Text :=
  if author.agent then "agent".toList else "person".toList

/-- The list item's line up to the text. -/
def entryHead (entry : Entry) : Text :=
  "- ".toList ++ entry.writtenAt ++ ", ".toList ++ entry.kind.asStr ++
    " by ".toList ++ sanitizeName entry.author.name ++ " (".toList ++
    entry.author.who ++ ")".toList

/-- The first line of an entry, its line feed left out. -/
def firstLine (entry : Entry) (first : Text) : Text :=
  entryHead entry ++ (if first.isEmpty then [] else ": ".toList ++ first)

/-- A further line of an entry, its line feed left out. -/
def furtherLine (line : Text) : Text :=
  if line.isEmpty then [] else "  ".toList ++ line

def renderEntry (entry : Entry) : Text :=
  let textLines := lines entry.text
  firstLine entry (textLines.headD []) ++ ['\n'] ++
    (textLines.tail.map fun line => furtherLine line ++ ['\n']).flatten

/-- The word for who wrote an entry and the text, after ` (`. -/
def splitWho (after : Text) : Option (Text × Text) :=
  match splitOnce "): ".toList after with
  | some parts => some parts
  | none => (stripSuffix [')'] after).map fun who => (who, [])

def parseEntry (line : Text) : Option Entry := do
  let rest ← stripPrefix "- ".toList line
  let (writtenAt, rest) ← splitOnce ", ".toList rest
  let (kind, rest) ← splitOnce " by ".toList rest
  let paren ← find " (".toList rest
  let name := rest.take paren
  let after := rest.drop (paren + 2)
  let (who, text) ← splitWho after
  let kind ← EntryKind.parse kind
  some { writtenAt, kind, author := { name, agent := who == "agent".toList }, text }

def metaOf (anchor : Anchor) (status : ThreadStatus) : Meta :=
  { sectionId := match anchor.sectionRef with
      | .id key => some key
      | .heading _ => none
    heading := match anchor.sectionRef with
      | .id _ => none
      | .heading path => some path
    quote := anchor.quote
    occurrence := max anchor.occurrence 1
    status }

def renderThread (yaml : MetaYaml) (thread : Thread) : Text :=
  let block := (yaml.toStr (metaOf thread.anchor thread.status)).getD []
  "## ".toList ++ thread.id ++ "\n\n```yaml\n".toList ++ block ++
    "```\n\n".toList ++ (thread.entries.map renderEntry).flatten

/-- One thread's place in a threads file. -/
structure Span where
  id : Text
  start : Nat
  body : Nat
  stop : Nat
  deriving DecidableEq

/-- `spans.last_mut()` with its end set. -/
def endLast (stop : Nat) (spans : List Span) : List Span :=
  match spans.getLast? with
  | some last => spans.dropLast ++ [{ last with stop }]
  | none => spans

/-- One line of the loop of `thread_spans`: the spans so far, and where the
line starts. -/
def spanStep (total : Nat) (state : List Span × Nat) (line : Text) :
    List Span × Nat :=
  let start := state.2
  let spans := match stripPrefix "## ".toList line with
    | some id => endLast start state.1 ++
        [{ id := trim id, start, body := start + line.length, stop := total }]
    | none => state.1
  (spans, start + line.length)

def threadSpans (text : Text) : List Span :=
  ((splitInclusive text).foldl (spanStep text.length) ([], 0)).1

/-- The opening fence line, trimmed at its end. -/
def opensYaml (bare : Text) : Bool :=
  match stripPrefix "```".toList bare with
  | some rest => trim rest == "yaml".toList
  | none => false

/-- The loop of `yaml_block` from position `start` on, with the position after
the opening fence line once it is found. -/
def yamlBlockFrom (start : Nat) (fence : Option Nat) :
    List Text → Option (Nat × Nat × Nat)
  | [] => none
  | line :: lines =>
      let bare := trimEnd line
      let next := start + line.length
      match fence with
      | none => yamlBlockFrom next (if opensYaml bare then some next else none) lines
      | some block =>
          if bare = "```".toList then some (block, start, next)
          else yamlBlockFrom next (some block) lines

def yamlBlock (rest : Text) : Option (Nat × Nat × Nat) :=
  yamlBlockFrom 0 none (splitInclusive rest)

/-- One line of the loop of `read_thread`: the entries so far, and the blank
lines since the last entry line. -/
def readLine (state : List Entry × Nat) (line : Text) : List Entry × Nat :=
  if (trim line).isEmpty then (state.1, state.2 + 1)
  else
    match stripPrefix "  ".toList line, state.1.getLast? with
    | some further, some last =>
        (state.1.dropLast ++
          [{ last with text :=
              last.text ++ List.replicate (state.2 + 1) '\n' ++ further }], 0)
    | _, _ => (state.1 ++ (parseEntry line).toList, 0)

/-- The entries of the text after the yaml block. -/
def readEntries (text : Text) : List Entry :=
  ((lines text).foldl readLine ([], 0)).1

/-- The thread under the id `id` in the text after its `##` line. -/
def readBody (yaml : MetaYaml) (id rest : Text) : Option (Thread × Meta) := do
  let (start, stop, entriesAt) ← yamlBlock rest
  let block ← yaml.fromStr (slice rest start stop)
  let sectionRef ← match block.sectionId, block.heading with
    | some key, _ => some (SectionRef.id key)
    | none, some path => some (SectionRef.heading path)
    | none, none => none
  some ({ id
          anchor := { sectionRef, quote := block.quote, occurrence := block.occurrence }
          status := block.status
          entries := readEntries (rest.drop entriesAt) }, block)

def readThread (yaml : MetaYaml) (text : Text) (span : Span) : Option (Thread × Meta) :=
  readBody yaml span.id (slice text span.body span.stop)

def parseThreads (yaml : MetaYaml) (text : Text) : List Thread :=
  let text := toLf text
  (threadSpans text).filterMap fun span => (readThread yaml text span).map Prod.fst

/-- A text without the line feeds it ends with. -/
def trimNewlines (text : Text) : Text := trimEndMatches (· == '\n') text

def openThread (yaml : MetaYaml) (file : Text) (thread : Thread) : Text :=
  let kept :=
    if (trim file).isEmpty then "# Threads\n\n".toList
    else trimNewlines (toLf file) ++ "\n\n".toList
  kept ++ renderThread yaml thread

/-- The rewrite of `line`, between the lines `before` and `after` it, when it
is the block's own status line. -/
def statusRewrite (yaml : MetaYaml) (wanted : Meta) (before after : List Text)
    (line : Text) : Option Text := do
  let value ← stripPrefix "status:".toList (trimNewlines line)
  let comment := match find " #".toList value with
    | some start => value.drop start
    | none => []
  let newline := if endsWith line ['\n'] then ['\n'] else []
  let rewritten := before.flatten ++ "status: ".toList ++ wanted.status.asStr ++
    comment ++ newline ++ after.flatten
  let read ← yaml.fromStr rewritten
  if read = wanted then some rewritten else none

/-- The loop of `with_status` over the lines after `before`. -/
def withStatusFrom (yaml : MetaYaml) (wanted : Meta) (before : List Text) :
    List Text → Option Text
  | [] => none
  | line :: after =>
      match statusRewrite yaml wanted before after line with
      | some rewritten => some rewritten
      | none => withStatusFrom yaml wanted (before ++ [line]) after

def withStatus (yaml : MetaYaml) (block : Text) (read : Meta) (status : ThreadStatus) :
    Option Text :=
  withStatusFrom yaml { read with status } [] (splitInclusive block)

/-- The status an entry sets, `none` when it leaves the status alone. -/
def newStatus (id : Text) (entry : Entry) (status : ThreadStatus) :
    Except ThreadError (Option ThreadStatus) :=
  match entry.kind, status with
  | .comment, .opened => .ok none
  | .comment, .resolved =>
      .error (.refused ("thread ".toList ++ id ++
        " is resolved; reopen it to answer".toList))
  | .resolve, .opened =>
      if (trim entry.text).isEmpty then
        .error (.refused "resolving a thread needs a short outcome".toList)
      else .ok (some .resolved)
  | .resolve, .resolved =>
      .error (.refused ("thread ".toList ++ id ++ " is already resolved".toList))
  | .reopen, .resolved => .ok (some .opened)
  | .reopen, .opened =>
      .error (.refused ("thread ".toList ++ id ++ " is open already".toList))

/-- The text before the new entry with the status of the thread's block set. -/
def setStatus (yaml : MetaYaml) (file head id : Text) (span : Span) (read : Meta)
    (status : ThreadStatus) : Except ThreadError Text :=
  match yamlBlock (slice file span.body span.stop) with
  | none => .error (.noThread id)
  | some (start, stop, _) =>
      let start := span.body + start
      let stop := span.body + stop
      match withStatus yaml (slice file start stop) read status with
      | none => .error (.refused ("thread ".toList ++ id ++
          " has no status line of its own to change".toList))
      | some block => .ok (head.take start ++ block ++ head.drop stop)

/-- The first span of the id that reads as a thread. -/
def findThread (yaml : MetaYaml) (file id : Text) : Option (Span × Thread × Meta) :=
  ((threadSpans file).filter fun span => span.id == id).findSome? fun span =>
    (readThread yaml file span).map fun read => (span, read)

/-- Where a new entry goes, after the last line of the span that is not empty,
and what must separate the two. -/
def insertionPoint (file : Text) (span : Span) : Nat × Text :=
  let contentEnd :=
    span.start + (trimNewlines (slice file span.start span.stop)).length
  if startsWith (file.drop contentEnd) ['\n'] then (contentEnd + 1, [])
  else (contentEnd, ['\n'])

/-- The text before the new entry, with the status set when the entry sets one. -/
def headBefore (yaml : MetaYaml) (file head id : Text) (span : Span) (read : Meta) :
    Option ThreadStatus → Except ThreadError Text
  | none => .ok head
  | some status => setStatus yaml file head id span read status

def appendEntry (yaml : MetaYaml) (file id : Text) (entry : Entry) :
    Except ThreadError Text :=
  let file := toLf file
  match findThread yaml file id with
  | none => .error (.noThread id)
  | some (span, thread, read) =>
      match newStatus id entry thread.status with
      | .error error => .error error
      | .ok status =>
          let insert := insertionPoint file span
          let head := file.take insert.1
          (headBefore yaml file head id span read status).map fun head =>
            head ++ insert.2 ++ renderEntry entry ++ file.drop insert.1

/-- A timestamp that cannot break an entry line. -/
def IsStamp (writtenAt : Text) : Prop := ',' ∉ writtenAt ∧ '\n' ∉ writtenAt

instance (writtenAt : Text) : Decidable (IsStamp writtenAt) :=
  inferInstanceAs (Decidable (_ ∧ _))

/-- A further line as it is read: nothing of a whitespace-only one. -/
def blankToEmpty (line : Text) : Text := if (trim line).isEmpty then [] else line

/-- The further lines of an entry, those after the last that is not blank
dropped. -/
def continued (rest : List Text) : Text :=
  ((rest.rdropWhile List.isEmpty).map ('\n' :: ·)).flatten

/-- An entry's text as the file gives it back. -/
def readBack (text : Text) : Text :=
  match (lines text).map withoutReturns with
  | [] => []
  | first :: rest => first ++ continued (rest.map blankToEmpty)

/-- An entry as the file gives it back. -/
def Entry.asRead (entry : Entry) : Entry :=
  { entry with
    author := { entry.author with name := sanitizeName entry.author.name }
    text := readBack entry.text }

theorem sanitizeName_clean (name : Text) {char : Char}
    (member : char ∈ sanitizeName name) : breaksEntryLine char = false := by
  have cleaned : ∀ char ∈ name.map fun char =>
      if breaksEntryLine char then ' ' else char, breaksEntryLine char = false := by
    intro char member
    obtain ⟨given, -, rfl⟩ := List.mem_map.mp member
    split
    · decide
    · next clean => simpa using clean
  rw [sanitizeName] at member
  split at member
  · have someone : ∀ char ∈ "someone".toList, breaksEntryLine char = false :=
      forall_mem_of_all (by decide)
    exact someone char member
  · have flat : ∀ pieces : List Text, (∀ piece ∈ pieces, ∀ char ∈ piece,
        breaksEntryLine char = false) → ∀ char ∈ [' '].intercalate pieces,
        breaksEntryLine char = false := by
      intro pieces clean
      induction pieces with
      | nil => simp
      | cons piece pieces ih =>
          cases pieces with
          | nil => simpa using clean
          | cons next pieces =>
              intro char member
              rw [List.intercalate_cons_cons] at member
              rcases List.mem_append.mp member with inFirst | later
              · rcases List.mem_append.mp inFirst with inPiece | isSpace
                · exact clean piece (by simp) char inPiece
                · rw [List.mem_singleton.mp isSpace]
                  decide
              · exact ih (fun other otherMember => clean other (by simp [otherMember]))
                  char later
    apply flat _ _ char member
    intro piece pieceMember inner innerMember
    have inPieces := (List.mem_filter.mp pieceMember).1
    exact cleaned inner (mem_of_mem_splitMatches inPieces innerMember)

theorem sanitizeName_notMem (name : Text) {char : Char}
    (breaks : breaksEntryLine char = true) : char ∉ sanitizeName name := by
  intro member
  rw [sanitizeName_clean name member] at breaks
  exact Bool.noConfusion breaks

theorem EntryKind.parse_asStr (kind : EntryKind) :
    EntryKind.parse kind.asStr = some kind := by
  cases kind <;> rfl

theorem EntryKind.space_notMem (kind : EntryKind) : ' ' ∉ kind.asStr := by
  cases kind <;> decide

theorem Author.paren_notMem (author : Author) : ')' ∉ author.who := by
  unfold Author.who
  split <;> decide

theorem Author.who_eq_agent (author : Author) :
    (author.who == "agent".toList) = author.agent := by
  unfold Author.who
  cases author.agent <;> rfl

theorem find_paren {name : Text} (absent : '(' ∉ name) (after : Text) :
    find " (".toList (name ++ (" (".toList ++ after)) = some name.length := by
  have split : splitOnce " (".toList (name ++ (" (".toList ++ after)) =
      some (name, after) := by
    rw [splitOnce_eq_some_iff]
    refine ⟨by simp, ?_⟩
    rintro early late rfl nonempty ⟨rest, whole⟩
    rw [List.append_assoc] at whole
    change ' ' :: '(' :: rest = late ++ ' ' :: '(' :: after at whole
    match late, nonempty with
    | [_], _ => simp at whole
    | _ :: second :: late, _ =>
        simp only [List.cons_append, List.cons.injEq] at whole
        have isParen := whole.2.1
        exact absent (by simp [← isParen])
  rw [find, split]
  rfl

theorem entryHead_eq (entry : Entry) :
    entryHead entry = "- ".toList ++ entry.writtenAt ++ ", ".toList ++
      entry.kind.asStr ++ " by ".toList ++ sanitizeName entry.author.name ++
      " (".toList ++ entry.author.who ++ ")".toList :=
  rfl

theorem splitWho_nil (author : Author) :
    splitWho (author.who ++ ")".toList) = some (author.who, []) := by
  unfold Author.who
  cases author.agent <;> rfl

theorem splitWho_text (author : Author) (text : Text) :
    splitWho (author.who ++ ")".toList ++ (": ".toList ++ text)) =
      some (author.who, text) := by
  have cut := splitOnce_of_not_mem author.paren_notMem ": ".toList text
  have same : author.who ++ ")".toList ++ (": ".toList ++ text) =
      author.who ++ (')' :: ": ".toList ++ text) := by simp
  have pattern : "): ".toList = ')' :: ": ".toList := rfl
  rw [splitWho, same, pattern, cut]

/-- The line `entryHead` starts reads as its entry, with the text that
`splitWho` finds behind the header. -/
theorem parseEntry_entryHead (entry : Entry) (stamp : IsStamp entry.writtenAt) {suffix text : Text}
    (who : splitWho (entry.author.who ++ ")".toList ++ suffix) =
      some (entry.author.who, text)) :
    parseEntry (entryHead entry ++ suffix) =
      some { entry with
        author := { entry.author with name := sanitizeName entry.author.name }
        text } := by
  have nameClean : '(' ∉ sanitizeName entry.author.name := sanitizeName_notMem _ rfl
  have stampCut := splitOnce_of_not_mem stamp.1 [' ']
  have kindCut := splitOnce_of_not_mem entry.kind.space_notMem "by ".toList
  have nameCut := find_paren nameClean
  have whole : entryHead entry ++ suffix =
      "- ".toList ++ (entry.writtenAt ++ (", ".toList ++ (entry.kind.asStr ++
        (" by ".toList ++ (sanitizeName entry.author.name ++ (" (".toList ++
          (entry.author.who ++ ")".toList ++ suffix))))))) := by
    simp only [entryHead_eq, List.append_assoc]
  have skip : ∀ name after : Text,
      (name ++ (" (".toList ++ after)).drop (name.length + 2) = after := by
    intro name after
    rw [List.drop_length_add_append]
    rfl
  change ∀ after, splitOnce ", ".toList (_ ++ (", ".toList ++ after)) = _ at stampCut
  change ∀ after, splitOnce " by ".toList (_ ++ (" by ".toList ++ after)) = _ at kindCut
  rw [whole]
  simp only [parseEntry, stripPrefix_append, Option.bind_eq_bind, Option.bind_some,
    stampCut, kindCut, nameCut, skip, who, List.take_left, EntryKind.parse_asStr,
    Author.who_eq_agent]

/-- The header line of an entry, read with the carriage returns at its end
dropped. -/
theorem parseEntry_firstLine (entry : Entry) (stamp : IsStamp entry.writtenAt) (first : Text) :
    parseEntry (withoutReturns (firstLine entry first)) =
      some { entry with
        author := { entry.author with name := sanitizeName entry.author.name }
        text := withoutReturns first } := by
  have headEnds : entryHead entry =
      ("- ".toList ++ entry.writtenAt ++ ", ".toList ++ entry.kind.asStr ++
        " by ".toList ++ sanitizeName entry.author.name ++ " (".toList ++
        entry.author.who) ++ [')'] := rfl
  rw [firstLine]
  cases first with
  | nil =>
      have same : withoutReturns (entryHead entry ++ []) = entryHead entry ++ [] := by
        rw [List.append_nil, headEnds, withoutReturns_snoc_other _ (by decide)]
      simp only [List.isEmpty_nil, if_true, same]
      apply parseEntry_entryHead entry stamp
      simpa using splitWho_nil entry.author
  | cons char first =>
      have same : withoutReturns (entryHead entry ++ (": ".toList ++ char :: first)) =
          entryHead entry ++ (": ".toList ++ withoutReturns (char :: first)) := by
        have kept := withoutReturns_keep (entryHead entry ++ [':']) (char :: first)
          (show ' ' ≠ '\r' by decide)
        simpa using kept
      simp only [List.isEmpty_cons, Bool.false_eq_true, if_false, same]
      exact parseEntry_entryHead entry stamp (splitWho_text entry.author _)

theorem trim_indented (line : Text) :
    trim ("  ".toList ++ line) = [] ↔ trim line = [] := by
  simp only [trim_eq_nil_iff]
  constructor
  · intro blank char member
    exact blank char (by simp [member])
  · intro blank char member
    rcases List.mem_append.mp member with indent | inside
    · have spaces : ∀ char ∈ "  ".toList, isWhitespace char = true :=
        forall_mem_of_all (by decide)
      exact spaces char indent
    · exact blank char inside

theorem withoutReturns_furtherLine (line : Text) :
    withoutReturns (furtherLine line) =
      if line.isEmpty then [] else "  ".toList ++ withoutReturns line := by
  rw [furtherLine]
  split
  · rfl
  · have kept := withoutReturns_keep [' '] line (show ' ' ≠ '\r' by decide)
    simpa using kept

/-- One further line: a blank one is counted, any other one goes to the entry
read last. -/
theorem readLine_furtherLine (history : List Entry) (last : Entry) (blanks : Nat) (line : Text) :
    readLine (history ++ [last], blanks) (withoutReturns (furtherLine line)) =
      if (blankToEmpty (withoutReturns line)).isEmpty then
        (history ++ [last], blanks + 1)
      else
        (history ++
          [{ last with text :=
              last.text ++ List.replicate (blanks + 1) '\n' ++
                blankToEmpty (withoutReturns line) }], 0) := by
  rw [withoutReturns_furtherLine]
  cases line with
  | nil => rfl
  | cons char line =>
      simp only [List.isEmpty_cons, Bool.false_eq_true, if_false]
      by_cases blank : trim (withoutReturns (char :: line)) = []
      · have whole := (trim_indented _).mpr blank
        rw [readLine, if_pos (List.isEmpty_iff.mpr whole), if_pos (by simp [blankToEmpty, blank])]
      · have whole := (trim_indented _).not.mpr blank
        have kept : blankToEmpty (withoutReturns (char :: line)) =
            withoutReturns (char :: line) := by
          simp [blankToEmpty, blank]
        have nonempty : withoutReturns (char :: line) ≠ [] := by
          intro empty
          rw [empty] at blank
          exact blank rfl
        rw [readLine, if_neg (by simpa using whole), stripPrefix_append, kept,
          if_neg (by simpa using nonempty)]
        simp

theorem continued_snoc_blank (rest : List Text) :
    continued (rest ++ [[]]) = continued rest := by
  simp [continued]

variable {line : Text}

theorem continued_snoc_line (rest : List Text) (kept : line ≠ []) :
    continued (rest ++ [line]) = (rest.map ('\n' :: ·)).flatten ++ '\n' :: line := by
  rw [continued, List.rdropWhile_concat_neg _ _ _ (by simpa using kept)]
  simp

/-- Further lines in a row all go to the entry before them. -/
theorem foldl_furtherLines (history : List Entry) (entry : Entry) (further : List Text) :
    ∃ blanks,
      (further.map fun line => withoutReturns (furtherLine line)).foldl readLine
          (history ++ [entry], 0) =
        (history ++
          [{ entry with text :=
              entry.text ++
                continued (further.map fun line => blankToEmpty (withoutReturns line)) }],
          blanks) ∧
      continued (further.map fun line => blankToEmpty (withoutReturns line)) ++
          List.replicate blanks '\n' =
        ((further.map fun line => blankToEmpty (withoutReturns line)).map
          ('\n' :: ·)).flatten := by
  induction further using List.reverseRecOn with
  | nil => exact ⟨0, by simp [continued], rfl⟩
  | append_singleton further line ih =>
      obtain ⟨blanks, folded, spelled⟩ := ih
      by_cases blank : blankToEmpty (withoutReturns line) = []
      · refine ⟨blanks + 1, ?_, ?_⟩
        · simp only [List.map_append, List.foldl_append, folded, List.map_cons,
            List.map_nil, List.foldl_cons, List.foldl_nil, readLine_furtherLine, blank,
            List.isEmpty_nil, if_true, continued_snoc_blank]
        · simp only [List.map_append, List.map_cons, List.map_nil, blank,
            continued_snoc_blank, List.flatten_append, ← spelled]
          rw [List.replicate_succ']
          simp
      · refine ⟨0, ?_, ?_⟩
        · simp only [List.map_append, List.foldl_append, folded, List.map_cons,
            List.map_nil, List.foldl_cons, List.foldl_nil, readLine_furtherLine,
            List.isEmpty_iff, blank, if_false, continued_snoc_line _ blank, ← spelled]
          simp [List.replicate_succ']
        · simp only [List.map_append, List.map_cons, List.map_nil, continued_snoc_line _ blank]
          simp

theorem readLine_item {entry : Entry} (rest : Text) (starts : line = '-' :: rest)
    (read : parseEntry line = some entry) (state : List Entry × Nat) :
    readLine state line = (state.1 ++ [entry], 0) := by
  have notBlank : trim line ≠ [] := by
    rw [Ne, trim_eq_nil_iff]
    intro blank
    have dash := blank '-' (by simp [starts])
    revert dash
    decide
  have notFurther : stripPrefix "  ".toList line = none := by
    rw [starts]
    rfl
  rw [readLine, if_neg (by simpa using notBlank), notFurther, read]
  rfl

theorem newline_notMem_firstLine (entry : Entry) (stamp : IsStamp entry.writtenAt)
    {first : Text} (absent : '\n' ∉ first) : '\n' ∉ firstLine entry first := by
  have kind : '\n' ∉ entry.kind.asStr := by cases entry.kind <;> decide
  have name : '\n' ∉ sanitizeName entry.author.name := sanitizeName_notMem _ rfl
  have who : '\n' ∉ entry.author.who := by
    unfold Author.who
    split <;> decide
  have suffix : '\n' ∉ (if first.isEmpty then [] else ": ".toList ++ first) := by
    split
    · simp
    · simpa using absent
  rw [firstLine, List.mem_append, not_or]
  refine ⟨?_, suffix⟩
  simp [entryHead_eq, stamp.2, kind, name, who]

theorem newline_notMem_furtherLine (absent : '\n' ∉ line) : '\n' ∉ furtherLine line := by
  rw [furtherLine]
  split
  · simp
  · simpa using absent

/-- The lines of an entry, without their line feeds. -/
def entryLines (entry : Entry) : List Text :=
  firstLine entry ((lines entry.text).headD []) ::
    (lines entry.text).tail.map furtherLine

theorem renderEntry_eq (entry : Entry) :
    renderEntry entry = ((entryLines entry).map (· ++ ['\n'])).flatten := by
  simp [renderEntry, entryLines, Function.comp_def]

theorem newline_notMem_entryLines (entry : Entry) (stamp : IsStamp entry.writtenAt)
    (member : line ∈ entryLines entry) : '\n' ∉ line := by
  rcases List.mem_cons.mp member with rfl | further
  · apply newline_notMem_firstLine entry stamp
    cases textLines : lines entry.text with
    | nil => simp
    | cons first rest =>
        have firstMember : first ∈ lines entry.text := by simp [textLines]
        exact newline_notMem_of_mem_lines firstMember
  · obtain ⟨given, givenMember, rfl⟩ := List.mem_map.mp further
    exact newline_notMem_furtherLine
      (newline_notMem_of_mem_lines (List.mem_of_mem_tail givenMember))

theorem terminated_renderEntry (entry : Entry) (stamp : IsStamp entry.writtenAt) :
    Terminated (renderEntry entry) := by
  rw [renderEntry_eq]
  apply terminated_flatten
  intro line member
  obtain ⟨body, bodyMember, rfl⟩ := List.mem_map.mp member
  exact isLine_snoc (newline_notMem_entryLines entry stamp bodyMember)

theorem withoutReturns_firstLine (entry : Entry) (first : Text) :
    ∃ rest, withoutReturns (firstLine entry first) = '-' :: rest := by
  have dash : firstLine entry first = [] ++ '-' :: (firstLine entry first).tail := rfl
  rw [dash, withoutReturns_keep _ _ (by decide)]
  exact ⟨_, rfl⟩

theorem foldl_entryLines (entry : Entry) (stamp : IsStamp entry.writtenAt)
    (first : Text) (further : List Text) (state : List Entry × Nat) :
    ∃ blanks,
      ((firstLine entry first :: further.map furtherLine).map withoutReturns).foldl
          readLine state =
        (state.1 ++
          [{ entry with
            author := { entry.author with name := sanitizeName entry.author.name }
            text := withoutReturns first ++
              continued (further.map fun line => blankToEmpty (withoutReturns line)) }],
          blanks) := by
  obtain ⟨rest, starts⟩ := withoutReturns_firstLine entry first
  have headRead := readLine_item rest starts (parseEntry_firstLine entry stamp first) state
  obtain ⟨blanks, folded, -⟩ := foldl_furtherLines state.1
    { entry with
      author := { entry.author with name := sanitizeName entry.author.name }
      text := withoutReturns first } further
  refine ⟨blanks, ?_⟩
  rw [List.map_cons, List.foldl_cons, headRead, List.map_map]
  exact folded

theorem foldl_renderEntry (entry : Entry) (stamp : IsStamp entry.writtenAt)
    (state : List Entry × Nat) :
    ∃ blanks, (lines (toLf (renderEntry entry))).foldl readLine state =
      (state.1 ++ [entry.asRead], blanks) := by
  obtain ⟨blanks, folded⟩ := foldl_entryLines entry stamp ((lines entry.text).headD [])
    (lines entry.text).tail state
  refine ⟨blanks, ?_⟩
  rw [renderEntry_eq, lines_toLf_flatten fun line => newline_notMem_entryLines entry stamp]
  apply folded.trans
  congr 3
  cases textLines : lines entry.text with
  | nil => simp [Entry.asRead, readBack, textLines, continued]
  | cons first rest => simp [Entry.asRead, readBack, textLines, Function.comp_def]

end Crystalline.Threads
