import Mathlib.Algebra.Order.Ring.Nat

/-!
# Bounded lines off a reader

Stdin is read in lines of at most a limit, the newline counted.  A line over the
limit is dropped as it arrives, and only its top-level keys are read while its
bytes stream past.
-/

namespace Crystalline.Stdio

abbrev Bytes := List UInt8

/-- The bytes of an ASCII text. -/
def ascii (text : String) : Bytes := text.toList.map fun char => UInt8.ofNat char.toNat

def newline : UInt8 := 10

def carriageReturn : UInt8 := 13

/-- Where a scan stands inside the current member of the top-level object. -/
inductive Member where
  | key
  | inKey
  | colon
  | value
  deriving DecidableEq, Repr

/-- `ID_CAPTURE_BYTES`. -/
def idCaptureBytes : Nat := 256

/-- `KEY_CAPTURE_BYTES`. -/
def keyCaptureBytes : Nat := 16

/-- `u32::MAX`, where the depth saturates. -/
def maxDepth : Nat := 2 ^ 32 - 1

/-- A reader of a JSON object's top-level keys; `Value` is what an id parses
to. -/
structure Scan (Value : Type) where
  depth : Nat
  object : Bool
  inString : Bool
  escaped : Bool
  member : Member
  key : Bytes
  capture : Option Bytes
  id : Option Value
  idSeen : Bool
  method : Bool
  outcome : Bool
  deriving DecidableEq

/-- The shape of an oversized line, read from its top-level keys. -/
inductive OversizedKind (Value : Type) where
  | request (id : Option Value)
  | notification
  | response
  deriving DecidableEq

namespace Scan

variable {Value : Type}

def default : Scan Value :=
  ⟨0, false, false, false, .key, [], none, none, false, false, false⟩

/-- `at_top`. -/
def atTop (scan : Scan Value) : Bool := scan.object && scan.depth = 1

/-- `capture`: an id longer than is kept is given up. -/
def captureByte (scan : Scan Value) (byte : UInt8) : Scan Value :=
  match scan.capture with
  | none => scan
  | some raw =>
      if raw.length < idCaptureBytes then { scan with capture := some (raw ++ [byte]) }
      else { scan with capture := none }

/-- `end_member`, over the parser of an id's bytes. -/
def endMember (parse : Bytes → Option Value) (scan : Scan Value) : Scan Value :=
  match scan.capture with
  | none => scan
  | some raw => { scan with capture := none, id := parse raw }

/-- What a byte of a string does to the string itself. -/
def stringByte (scan : Scan Value) (byte : UInt8) : Scan Value :=
  if scan.escaped then { scan with escaped := false }
  else if byte = 0x5C then { scan with escaped := true }
  else if byte = 0x22 then { scan with inString := false }
  else scan

/-- `step` inside a string. -/
def stepInString (scan : Scan Value) (byte : UInt8) : Scan Value :=
  let next := scan.stringByte byte
  if next.member = .inKey && next.atTop then
    if next.inString then
      if next.key.length < keyCaptureBytes then { next with key := next.key ++ [byte] } else next
    else { next with member := .colon }
  else next.captureByte byte

/-- The value of a top-level key begins. -/
def beginValue (scan : Scan Value) : Scan Value :=
  let next := { scan with member := .value }
  if scan.key = ascii "id" then { next with idSeen := true, capture := some [] }
  else if scan.key = ascii "method" then { next with method := true }
  else if scan.key = ascii "result" || scan.key = ascii "error" then
    { next with outcome := true }
  else next

/-- `step`. -/
def step (parse : Bytes → Option Value) (scan : Scan Value) (byte : UInt8) : Scan Value :=
  if scan.inString then scan.stepInString byte
  else if byte = 0x22 then
    let next := { scan with inString := true }
    if next.atTop && next.member = .key then { next with member := .inKey, key := [] }
    else next.captureByte byte
  else if byte = 0x7B || byte = 0x5B then
    let next :=
      if scan.depth = 0 then { scan with object := decide (byte = 0x7B), member := .key }
      else scan.captureByte byte
    { next with depth := min (next.depth + 1) maxDepth }
  else if byte = 0x7D || byte = 0x5D then
    let next := if scan.atTop then scan.endMember parse else scan.captureByte byte
    { next with depth := next.depth - 1 }
  else if byte = 0x3A && (scan.atTop && scan.member = .colon) then scan.beginValue
  else if byte = 0x2C && scan.atTop then { scan.endMember parse with member := .key }
  else scan.captureByte byte

/-- `feed`. -/
def feed (parse : Bytes → Option Value) (scan : Scan Value) (bytes : Bytes) : Scan Value :=
  bytes.foldl (step parse) scan

/-- `kind`: a line that ended inside its id's value still offers what was
captured. -/
def kind (parse : Bytes → Option Value) (scan : Scan Value) : OversizedKind Value :=
  let ended := scan.endMember parse
  if ended.method && !ended.idSeen then .notification
  else if !ended.method && ended.outcome then .response
  else .request ended.id

theorem feed_append (parse : Bytes → Option Value) (scan : Scan Value) (left right : Bytes) :
    (scan.feed parse left).feed parse right = scan.feed parse (left ++ right) :=
  List.foldl_append.symm

end Scan

structure Oversized (Value : Type) where
  limit : Nat
  kind : OversizedKind Value
  deriving DecidableEq

/-- One item read off stdin. -/
inductive Incoming (Value : Type) where
  | line (bytes : Bytes)
  | oversized (dropped : Oversized Value)
  deriving DecidableEq

/-- `BoundedLines`, beside the bytes its reader still hands out, chunk by
chunk. -/
structure BoundedLines (Value : Type) where
  reader : List Bytes
  limit : Nat
  line : Bytes
  discarding : Bool
  scan : Scan Value
  replay : Option (Incoming Value)

/-- The first newline of a chunk. -/
def position (chunk : Bytes) : Option Nat := chunk.findIdx? fun byte => byte = newline

/-- The bytes of a line without its `\n` or `\r\n`. -/
def chomp (line : Bytes) : Bytes :=
  if line.getLast? = some newline then
    if line.dropLast.getLast? = some carriageReturn then line.dropLast.dropLast
    else line.dropLast
  else line

namespace BoundedLines

variable {Value : Type}

/-- `BoundedLines::new`. -/
def new (reader : List Bytes) (limit : Nat) : BoundedLines Value :=
  ⟨reader, limit, [], false, .default, none⟩

/-- `fill_buf`: what is at hand, and nothing at the end of input. -/
def fillBuf (lines : BoundedLines Value) : Bytes := lines.reader.headD []

/-- `consume`. -/
def consume (lines : BoundedLines Value) (count : Nat) : BoundedLines Value :=
  match lines.reader with
  | [] => lines
  | chunk :: chunks =>
      { lines with reader := if count < chunk.length then chunk.drop count :: chunks else chunks }

/-- `finish_oversized`. -/
def finishOversized (parse : Bytes → Option Value) (lines : BoundedLines Value) :
    Incoming Value × BoundedLines Value :=
  (.oversized ⟨lines.limit, lines.scan.kind parse⟩,
    { lines with discarding := false, scan := .default })

/-- `take_line`. -/
def takeLine (lines : BoundedLines Value) : Incoming Value × BoundedLines Value :=
  (.line (chomp lines.line), { lines with line := [] })

/-- `at_end`. -/
def atEnd (parse : Bytes → Option Value) (lines : BoundedLines Value) :
    Option (Incoming Value) × BoundedLines Value :=
  if lines.discarding then (lines.finishOversized parse).map some id
  else if lines.line = [] then (none, lines)
  else if lines.limit < lines.line.length + 1 then
    (({ lines with scan := Scan.default.feed parse lines.line, line := [] } :
      BoundedLines Value).finishOversized parse).map some id
  else lines.takeLine.map some id

/-- What a chunk up to its newline, or to its end, does to the line: an item
when the newline is there. -/
def acceptChunk (parse : Bytes → Option Value) (lines : BoundedLines Value) (chunk : Bytes)
    (ended : Bool) : Option (Incoming Value) × BoundedLines Value :=
  if lines.discarding then
    let fed := { lines with scan := lines.scan.feed parse chunk }
    if ended then (fed.finishOversized parse).map some id else (none, fed)
  else if lines.limit < lines.line.length + chunk.length then
    -- the line crossed the limit here: what was buffered is scanned and dropped
    let fed := { lines with
      scan := (Scan.default.feed parse lines.line).feed parse chunk
      line := [] }
    if ended then (fed.finishOversized parse).map some id
    else (none, { fed with discarding := true })
  else
    let kept := { lines with line := lines.line ++ chunk }
    if ended then kept.takeLine.map some id else (none, kept)

/-- How a call of `next_line` stands after some turns of its loop. -/
inductive Progress (Value : Type) where
  | waiting
  | answered (item : Option (Incoming Value))
  deriving DecidableEq

/-- One turn of the loop of `next_line`: a filled buffer, decided on and
consumed with no await between. -/
def turn (parse : Bytes → Option Value) (lines : BoundedLines Value) :
    Progress Value × BoundedLines Value :=
  let available := lines.fillBuf
  if available = [] then (lines.atEnd parse).map .answered id
  else
    let found := position available
    let take := (found.map fun index => index + 1).getD available.length
    let accepted := lines.acceptChunk parse (available.take take) found.isSome
    (match accepted.1 with
      | some item => .answered (some item)
      | none => .waiting, accepted.2.consume take)

/-- The loop of `next_line`, for a number of turns. -/
def turns (parse : Bytes → Option Value) :
    Nat → BoundedLines Value → Progress Value × BoundedLines Value
  | 0, lines => (.waiting, lines)
  | count + 1, lines =>
      match lines.turn parse with
      | (.waiting, next) => turns parse count next
      | answered => answered

/-- A call of `next_line` that is cancelled where it waits once its buffer was
filled `patience` times: the state it leaves is all that stays of it. -/
def nextLine (parse : Bytes → Option Value) (patience : Nat) (lines : BoundedLines Value) :
    Progress Value × BoundedLines Value :=
  match lines.replay with
  | some item => (.answered (some item), { lines with replay := none })
  | none => lines.turns parse patience

/-- Calls one after the other, each with its patience, and what they answer;
`none` is the end of input. -/
def session (parse : Bytes → Option Value) :
    List Nat → BoundedLines Value → List (Option (Incoming Value)) × BoundedLines Value
  | [], lines => ([], lines)
  | patience :: patiences, lines =>
      match lines.nextLine parse patience with
      | (.waiting, next) => session parse patiences next
      | (.answered item, next) => (session parse patiences next).map (item :: ·) id

end BoundedLines

end Crystalline.Stdio
