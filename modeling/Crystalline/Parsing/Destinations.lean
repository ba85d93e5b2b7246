import Crystalline.Text.Bytes
import Crystalline.Links.Resolve

/-!
# Link destinations

A destination is read from just after a `](`.  The loops over bytes look for
ASCII characters alone, so every offset they answer is a boundary.
-/

namespace Crystalline.Parsing

open Text

/-- What a call answers. -/
abbrev Run (Answer : Type) := Option Answer

/-- The call answers, and its answer has a property. -/
def Answers {Answer : Type} (run : Run Answer) (holds : Answer → Prop) : Prop :=
  ∃ answer, run = some answer ∧ holds answer

namespace Answers

variable {First : Type} {Second : Type}

theorem pure {answer : First} {holds : First → Prop} (property : holds answer) :
    Answers (some answer) holds :=
  ⟨answer, rfl, property⟩

variable {run : Run First}

theorem bind {next : First → Run Second} {middle : First → Prop} {holds : Second → Prop}
    (first : Answers run middle) (second : ∀ answer, middle answer → Answers (next answer) holds) :
    Answers (run >>= next) holds := by
  obtain ⟨answer, rfl, property⟩ := first
  exact second answer property

theorem imp {weak strong : First → Prop} (answers : Answers run strong)
    (weaker : ∀ answer, strong answer → weak answer) : Answers run weak := by
  obtain ⟨answer, same, property⟩ := answers
  exact ⟨answer, same, weaker answer property⟩

end Answers

/-- The call answers something. -/
abbrev Returns {Answer : Type} (run : Run Answer) : Prop := Answers run fun _ => True

/-- `b'c'`. -/
def ascii (char : Char) : UInt8 := char.toNat.toUInt8

def isAsciiPunctuation (char : Char) : Bool :=
  '!' ≤ char && char ≤ '/' || ':' ≤ char && char ≤ '@' || '[' ≤ char && char ≤ '\x60' ||
    '{' ≤ char && char ≤ '~'

def unescapeBackslashes : Text → Text
  | [] => []
  | char :: path =>
      if char = '\\' && path.head?.any isAsciiPunctuation then unescapeBackslashes path
      else char :: unescapeBackslashes path

def hexNibble (byte : UInt8) : Option UInt8 :=
  if ascii '0' ≤ byte && byte ≤ ascii '9' then some (byte - ascii '0')
  else if ascii 'a' ≤ byte && byte ≤ ascii 'f' then some (byte - ascii 'a' + 10)
  else if ascii 'A' ≤ byte && byte ≤ ascii 'F' then some (byte - ascii 'A' + 10)
  else none

/-- The loop of `percent_decode_target`; nothing for a malformed escape. -/
def percentDecodeBytes : List UInt8 → Option (List UInt8)
  | [] => some []
  | byte :: rest =>
      if byte = ascii '%' then
        match rest with
        | high :: low :: rest => do
            let high ← hexNibble high
            let low ← hexNibble low
            let later ← percentDecodeBytes rest
            some ((high * 16 + low) :: later)
        | _ => none
      else (percentDecodeBytes rest).map (byte :: ·)

def percentDecodeTarget (target : Text) : Text :=
  if !contains target ['%'] then target
  else ((percentDecodeBytes (bytes target)).bind fromUtf8).getD target

/-- A raw link target as its path and its fragment. -/
def decodeTarget (target : Text) : Text × Option Text :=
  match splitOnce ['#'] target with
  | some (path, fragment) => (percentDecodeTarget (unescapeBackslashes path), some fragment)
  | none => (percentDecodeTarget (unescapeBackslashes target), none)

def isRelative (target : Text) : Bool :=
  target ≠ [] && !startsWith target ['#'] && !startsWith target ['/'] &&
    !contains target "://".toList && !startsWith target "mailto:".toList

/-- How many backticks the bytes start with. -/
def backticks (bytes : List UInt8) : Nat := (bytes.takeWhile (· = ascii '\x60')).length

/-- The end of the first run of as many backticks as `run`; `skip` bytes are
behind the loop's own index. -/
def closingRun (run : Nat) : (skip index : Nat) → List UInt8 → Option Nat
  | _, _, [] => none
  | skip + 1, index, _ :: rest => closingRun run skip (index + 1) rest
  | 0, index, byte :: rest =>
      if byte = ascii '\x60' then
        let count := backticks (byte :: rest)
        if count = run then some (index + count)
        else closingRun run (count - 1) (index + 1) rest
      else closingRun run 0 (index + 1) rest

def codeSpansFrom : (skip index : Nat) → List UInt8 → List (Nat × Nat)
  | _, _, [] => []
  | skip + 1, index, _ :: rest => codeSpansFrom skip (index + 1) rest
  | 0, index, byte :: rest =>
      if byte ≠ ascii '\x60' then codeSpansFrom 0 (index + 1) rest
      else
        let run := backticks (byte :: rest)
        match closingRun run 0 (index + run) ((byte :: rest).drop run) with
        | some stop => (index, stop) :: codeSpansFrom (stop - index - 1) (index + 1) rest
        | none => codeSpansFrom (run - 1) (index + 1) rest

/-- The byte ranges of the inline code on a line. -/
def codeSpans (line : Text) : List (Nat × Nat) := codeSpansFrom 0 0 (bytes line)

def inCode (spans : List (Nat × Nat)) (index : Nat) : Bool :=
  spans.any fun span => span.1 ≤ index && index < span.2

/-- A destination and the offset of the parenthesis that closes it. -/
structure Destination where
  path : Text
  fragment : Option Text
  /-- What follows the target: a title. -/
  rest : Text
  close : Nat
  deriving DecidableEq

/-- A backslash escapes this byte in a destination. -/
def isEscapable (byte : UInt8) : Bool :=
  byte = ascii '(' || byte = ascii ')' || byte = ascii '\\'

/-- The loop of `closing_paren`. -/
def closingParenFrom : (depth index : Nat) → List UInt8 → Option Nat
  | _, _, [] => none
  | depth, index, byte :: rest =>
      if byte = ascii '\\' && rest.head?.any isEscapable then
        match rest with
        | [] => none
        | _ :: rest => closingParenFrom depth (index + 2) rest
      else if byte = ascii '(' then closingParenFrom (depth + 1) (index + 1) rest
      else if byte = ascii ')' then
        if depth = 1 then some index else closingParenFrom (depth - 1) (index + 1) rest
      else closingParenFrom depth (index + 1) rest

/-- The first `)` at or after an offset that no `(` opens. -/
def closingParen (line : Text) (start : Nat) : Option Nat :=
  closingParenFrom 1 start ((bytes line).drop start)

def endsDestination (char : Char) : Bool := char = ' ' || isAsciiControl char

def destinationOf (target rest : Text) (close : Nat) : Destination :=
  { path := (decodeTarget target).1, fragment := (decodeTarget target).2, rest, close }

/-- The destination that starts at an offset, when one closes on the line. -/
def readDestination (line : Text) (start : Nat) : Run (Option Destination) := do
  let ahead ← sliceFrom line start
  if startsWith ahead ['<'] then
    let inside ← sliceFrom line (start + 1)
    match findBytes ['>'] inside with
    | none => some none
    | some found =>
        let angle := start + 1 + found
        match closingParen line (angle + 1) with
        | none => some none
        | some close =>
            let target ← sliceBytes line (start + 1) angle
            let rest ← sliceBytes line (angle + 1) close
            some (some (destinationOf target rest close))
  else
    match closingParen line start with
    | none => some none
    | some close =>
        let inside ← sliceBytes line start close
        let parts ← splitBytes inside ((findWhere endsDestination inside).getD (byteLen inside))
        some (some (destinationOf parts.1 parts.2 close))

/-- A backslash stands before the byte. -/
def isEscapedAt (line : List UInt8) (index : Nat) : Run Bool :=
  if index = 0 then some false else ((line)[index - 1]?).map fun byte => byte = ascii '\\'

/-- The loop of `link_text_start`, from `index` down. -/
def linkTextStartFrom (line : List UInt8) : (depth index : Nat) → Run (Option Nat)
  | _, 0 => some none
  | depth, index + 1 => do
      let escaped ← isEscapedAt line index
      let byte ← (line)[index]?
      if byte = ascii ']' && !escaped then linkTextStartFrom line (depth + 1) index
      else if byte = ascii '[' && !escaped then
        if depth = 0 then some (some index) else linkTextStartFrom line (depth - 1) index
      else linkTextStartFrom line depth index

/-- The `[` that opens the link text closed at an offset. -/
def linkTextStart (line : Text) (close : Nat) : Run (Option Nat) :=
  linkTextStartFrom (bytes line) 0 close

/-- The `[` that opens a link to another engram's file. -/
def noteLinkStart (line : Text) (closeText : Nat) (path : Text) : Run (Option Nat) := do
  match ← linkTextStart line closeText with
  | none => some none
  | some start =>
      let before ← sliceTo line start
      let note := endsWith (Links.asciiLowercase path) ".md".toList
      some (if !endsWith before ['!'] && note && isRelative path then some start else none)

/-- The file names `index.md` and `log.md`, in any folder. -/
def isReservedPath (path : Text) : Bool :=
  let name := (splitMatches (· == '/') path).getLastD []
  name = "index.md".toList || name = "log.md".toList

/-- The destinations of a line that stand behind a link text, each with the
offset of the `]` before it. -/
def textLinksFrom (line : Text) : (fuel cursor : Nat) → Run (List (Nat × Destination))
  | 0, _ => none
  | fuel + 1, cursor => do
      let ahead ← sliceFrom line cursor
      match findBytes "](".toList ahead with
      | none => some []
      | some found =>
          let closeText := cursor + found
          match ← linkTextStart line closeText with
          | none => textLinksFrom line fuel (closeText + 2)
          | some _ =>
              match ← readDestination line (closeText + 2) with
              | none => textLinksFrom line fuel (closeText + 2)
              | some dest => do
                  let later ← textLinksFrom line fuel dest.close
                  some ((closeText, dest) :: later)

def textLinks (line : Text) : Run (List (Nat × Destination)) :=
  textLinksFrom line (byteLen line + 1) 0

/-- The links of a line to another engram's file. -/
def relativeNoteLinks (line : Text) : Run (List (Nat × Text)) := do
  let links ← textLinks line
  let notes ← links.mapM fun link => do
    let start ← noteLinkStart line link.1 link.2.path
    some (start.bind fun start =>
      if !inCode (codeSpans line) link.1 && !isReservedPath link.2.path then
        some (start, link.2.path)
      else none)
  some (notes.filterMap id)

theorem length_bytes (text : Text) : (bytes text).length = byteLen text := by
  induction text with
  | nil => rfl
  | cons char text induction =>
      rw [bytes, List.flatMap_cons, List.length_append, String.length_utf8EncodeChar]
      exact congrArg (char.utf8Size + ·) induction

theorem exists_between {front back first last : Text} (same : front ++ back = first ++ last)
    (order : byteLen front ≤ byteLen first) :
    ∃ inside, first = front ++ inside ∧ back = inside ++ last := by
  rcases List.append_eq_append_iff.mp same with ⟨inside, rfl, rfl⟩ | ⟨inside, rfl, rfl⟩
  · exact ⟨inside, rfl, rfl⟩
  · rw [byteLen_append] at order
    cases inside with
    | nil => exact ⟨[], by simp, by simp⟩
    | cons char inside =>
        have positive := char.utf8Size_pos
        rw [byteLen_cons] at order
        omega

theorem closingParenFrom_eq_some {depth index close : Nat} {ahead : List UInt8}
    (found : closingParenFrom depth index ahead = some close) :
    ∃ place, close = index + place ∧ ahead[place]? = some (ascii ')') := by
  fun_induction closingParenFrom depth index ahead with
  | case1 => cases found
  | case2 => cases found
  | case3 depth index byte escapes next rest induction =>
      obtain ⟨place, rfl, here⟩ := induction found
      exact ⟨place + 2, by omega, here⟩
  | case4 depth index rest _ induction =>
      obtain ⟨place, rfl, here⟩ := induction found
      exact ⟨place + 1, by omega, here⟩
  | case5 index rest =>
      exact ⟨0, (Option.some.inj found).symm, rfl⟩
  | case6 depth index rest _ _ _ induction =>
      obtain ⟨place, rfl, here⟩ := induction found
      exact ⟨place + 1, by omega, here⟩
  | case7 depth index byte rest _ _ _ induction =>
      obtain ⟨place, rfl, here⟩ := induction found
      exact ⟨place + 1, by omega, here⟩

variable {front back : Text}

theorem closingParen_eq_some {close : Nat}
    (found : closingParen (front ++ back) (byteLen front) = some close) :
    ∃ inside after, back = inside ++ ')' :: after ∧ close = byteLen front + byteLen inside := by
  obtain ⟨place, rfl, here⟩ := closingParenFrom_eq_some found
  rw [List.getElem?_drop] at here
  obtain ⟨first, last, same, length⟩ := exists_ascii here (by decide)
  obtain ⟨inside, rfl, rfl⟩ := exists_between same (by omega)
  refine ⟨inside, last, rfl, ?_⟩
  rw [length, byteLen_append]

theorem linkTextStartFrom_answers {line : List UInt8} {depth index : Nat}
    (inside : index ≤ line.length) :
    Answers (linkTextStartFrom line depth index) fun start =>
      ∀ place, start = some place → (line)[place]? = some (ascii '[') := by
  induction index generalizing depth with
  | zero => exact .pure (by intro place absent; cases absent)
  | succ index induction =>
      rw [linkTextStartFrom]
      have looked : Answers (isEscapedAt line index) fun _ => True := by
        rw [isEscapedAt]
        split
        · exact .pure trivial
        · rw [List.getElem?_eq_getElem (by omega : index - 1 < line.length)]
          exact .pure trivial
      have here : index < line.length := by omega
      have below : index ≤ line.length := by omega
      have read : Answers ((line)[index]? : Run UInt8) fun byte => (line)[index]? = some byte := by
        rw [List.getElem?_eq_getElem here]
        exact .pure rfl
      apply Answers.bind looked
      intro escaped _
      apply Answers.bind read
      intro byte found
      split
      · exact induction below
      · split
        next opens =>
          split
          · refine .pure ?_
            intro place same
            cases same
            rw [Bool.and_eq_true, decide_eq_true_eq] at opens
            rw [found, opens.1]
          · exact induction below
        next => exact induction below

theorem linkTextStart_answers {line : Text} {close : Nat} (inside : close ≤ byteLen line) :
    Answers (linkTextStart line close) fun start => ∀ place, start = some place →
      ∃ before after, line = before ++ '[' :: after ∧ place = byteLen before := by
  rw [← length_bytes] at inside
  refine (linkTextStartFrom_answers inside).imp ?_
  intro start found place same
  exact exists_ascii (found place same) (by decide)

theorem noteLinkStart_returns {line : Text} {closeText : Nat} (inside : closeText ≤ byteLen line)
    (path : Text) : Returns (noteLinkStart line closeText path) := by
  rw [noteLinkStart]
  apply Answers.bind (linkTextStart_answers inside)
  intro start found
  cases start with
  | none => exact .pure trivial
  | some place =>
      obtain ⟨before, after, rfl, rfl⟩ := found place rfl
      dsimp only
      rw [sliceTo_append]
      exact .pure trivial

/-- A destination closes with a parenthesis of what stands ahead. -/
theorem readDestination_answers (front back : Text) :
    Answers (readDestination (front ++ back) (byteLen front)) fun dest =>
      ∀ found, dest = some found → ∃ inside after, back = inside ++ ')' :: after ∧
        found.close = byteLen front + byteLen inside := by
  have absent : ∀ found, (none : Option Destination) = some found →
      ∃ inside after, back = inside ++ ')' :: after ∧
        found.close = byteLen front + byteLen inside := by
    intro found same
    cases same
  rw [readDestination, sliceFrom_append]
  dsimp only [Option.bind_eq_bind, Option.bind_some]
  split
  next angled =>
    obtain ⟨rest, rfl⟩ := startsWith_iff.mp angled
    have shape : front ++ (['<'] ++ rest) = (front ++ ['<']) ++ rest := by simp
    have width : byteLen (front ++ ['<']) = byteLen front + 1 := by
      rw [byteLen_append]
      rfl
    rw [shape, ← width, sliceFrom_append, Option.bind_some]
    cases found : findBytes ['>'] rest with
    | none => exact .pure absent
    | some place =>
        obtain ⟨target, ahead, rfl, rfl⟩ := findBytes_eq_some found
        dsimp only
        have whole : (front ++ ['<']) ++ (target ++ (['>'] ++ ahead)) =
            (front ++ ['<'] ++ target ++ ['>']) ++ ahead := by simp
        have length : byteLen (front ++ ['<']) + byteLen target + 1 =
            byteLen (front ++ ['<'] ++ target ++ ['>']) := by
          rw [byteLen_append _ ['>'], byteLen_append (front ++ ['<']) target]
          rfl
        rw [whole, length]
        cases closes : closingParen ((front ++ ['<'] ++ target ++ ['>']) ++ ahead)
            (byteLen (front ++ ['<'] ++ target ++ ['>'])) with
        | none => exact .pure absent
        | some close =>
            obtain ⟨title, after, rfl, rfl⟩ := closingParen_eq_some closes
            dsimp only
            rw [sliceBytes_append, ← whole, sliceBytes_append]
            refine .pure ?_
            intro dest same
            cases same
            refine ⟨'<' :: (target ++ '>' :: title), after, by simp, ?_⟩
            simp only [destinationOf, byteLen_append, byteLen_cons, byteLen_nil]
            omega
  next =>
    cases closes : closingParen (front ++ back) (byteLen front) with
    | none => exact .pure absent
    | some close =>
        obtain ⟨inside, after, rfl, rfl⟩ := closingParen_eq_some closes
        dsimp only
        rw [sliceBytes_append, Option.bind_some]
        have cut : ∃ parts, splitBytes inside
            ((findWhere endsDestination inside).getD (byteLen inside)) = some parts := by
          cases ends : findWhere endsDestination inside with
          | none => exact ⟨(inside, []), splitBytes_eq_some_iff.mpr ⟨by simp, rfl⟩⟩
          | some place =>
              obtain ⟨target, char, rest, rfl, -, rfl⟩ := findWhere_eq_some ends
              exact ⟨_, splitBytes_append target (char :: rest)⟩
        obtain ⟨parts, cut⟩ := cut
        rw [cut, Option.bind_some]
        refine .pure ?_
        intro dest same
        cases same
        exact ⟨inside, after, rfl, rfl⟩

theorem textLinksFrom_answers {fuel : Nat} (enough : byteLen back < fuel) :
    Answers (textLinksFrom (front ++ back) fuel (byteLen front)) fun links =>
      ∀ link ∈ links, link.1 ≤ byteLen (front ++ back) := by
  induction fuel generalizing front back with
  | zero => omega
  | succ fuel induction =>
      rw [textLinksFrom, sliceFrom_append]
      dsimp only [Option.bind_eq_bind, Option.bind_some]
      cases found : findBytes "](".toList back with
      | none => exact .pure (by simp)
      | some place =>
          obtain ⟨text, ahead, rfl, rfl⟩ := findBytes_eq_some found
          have width : byteLen "](".toList = 2 := rfl
          have whole : front ++ (text ++ ("](".toList ++ ahead)) =
              (front ++ text ++ "](".toList) ++ ahead := by simp
          have length : byteLen front + byteLen text + 2 =
              byteLen (front ++ text ++ "](".toList) := by
            rw [byteLen_append, byteLen_append, width]
          rw [byteLen_append, byteLen_append, width] at enough
          have inside : byteLen front + byteLen text ≤
              byteLen (front ++ (text ++ ("](".toList ++ ahead))) := by
            rw [byteLen_append, byteLen_append]
            omega
          have next := @induction (front ++ text ++ "](".toList) ahead (by omega)
          rw [← whole, ← length] at next
          dsimp only
          apply Answers.bind (linkTextStart_answers inside)
          intro start _
          cases start with
          | none => exact next
          | some start =>
              dsimp only
              have reads := readDestination_answers (front ++ text ++ "](".toList) ahead
              rw [← whole, ← length] at reads
              apply Answers.bind reads
              intro dest closes
              cases dest with
              | none => exact next
              | some dest =>
                  obtain ⟨target, after, rfl, close⟩ := closes dest rfl
                  rw [byteLen_append] at enough
                  have later := @induction (front ++ text ++ "](".toList ++ target)
                    (')' :: after) (by omega)
                  have same : front ++ (text ++ ("](".toList ++ (target ++ ')' :: after))) =
                      (front ++ text ++ "](".toList ++ target) ++ ')' :: after := by simp
                  have here : dest.close = byteLen (front ++ text ++ "](".toList ++ target) := by
                    rw [close, length]
                    exact (byteLen_append _ _).symm
                  rw [← same, ← here] at later
                  apply Answers.bind later
                  intro links bounds
                  refine .pure ?_
                  intro link member
                  rcases List.mem_cons.mp member with rfl | member
                  · exact inside
                  · exact bounds link member

theorem textLinks_answers (line : Text) :
    Answers (textLinks line) fun links => ∀ link ∈ links, link.1 ≤ byteLen line :=
  @textLinksFrom_answers [] line _ (Nat.lt_succ_self _)

theorem mapM_returns {First Second : Type} {call : First → Run Second} {items : List First}
    (each : ∀ item ∈ items, Returns (call item)) : Returns (items.mapM call) := by
  induction items with
  | nil => exact .pure trivial
  | cons item items induction =>
      rw [List.mapM_cons]
      apply Answers.bind (each item List.mem_cons_self)
      intro answer _
      apply Answers.bind (induction fun other member => each other (List.mem_cons_of_mem _ member))
      intro answers _
      exact .pure trivial

theorem relativeNoteLinks_returns (line : Text) : Returns (relativeNoteLinks line) := by
  rw [relativeNoteLinks]
  apply Answers.bind (textLinks_answers line)
  intro links bounds
  have placed : ∀ link ∈ links, Returns (noteLinkStart line link.1 link.2.path) :=
    fun link member => noteLinkStart_returns (bounds link member) link.2.path
  refine Answers.bind (mapM_returns fun link member => ?_) ?_
  · apply Answers.bind (placed link member)
    intro start _
    exact .pure trivial
  · intro answers _
    exact .pure trivial

end Crystalline.Parsing
