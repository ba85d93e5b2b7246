import Crystalline.Stdio.Lines

/-!
# What the top-level members of a message say

A member is absorbed as a whole, and a whole message tells what its members say.
-/

namespace Crystalline.Stdio

section

/-- White space. -/
def isBlank (byte : UInt8) : Bool := byte ∈ ([0x20, 0x09, 0x0A, 0x0D] : Bytes)

def Blank (bytes : Bytes) : Prop := ∀ byte ∈ bytes, isBlank byte = true

/-- What stands between the quotes of a string. -/
inductive Chars : Bytes → Prop
  | done : Chars []
  | plain {byte : UInt8} {rest : Bytes} (notQuote : byte ≠ 0x22) (notEscape : byte ≠ 0x5C)
      (more : Chars rest) : Chars (byte :: rest)
  | escape {byte : UInt8} {rest : Bytes} (more : Chars rest) : Chars (0x5C :: byte :: rest)

/-- The characters of numbers and of `true`, `false` and `null`. -/
def isScalar (byte : UInt8) : Bool :=
  (0x30 ≤ byte && byte ≤ 0x39) || (0x61 ≤ byte && byte ≤ 0x7A) ||
    byte ∈ ([0x2B, 0x2D, 0x2E, 0x45] : Bytes)

/-- A quoted string. -/
def quoted (body : Bytes) : Bytes := 0x22 :: (body ++ [0x22])

/-- A piece of a JSON text: a value, one with white space around it, and what stands
inside of arrays and objects. -/
inductive Piece where
  | value
  | padded
  | elements
  | members

/-- The pieces that nest no deeper than a bound. -/
inductive Json : Piece → Nat → Bytes → Prop
  | scalar {bound : Nat} {bytes : Bytes} (scalar : ∀ byte ∈ bytes, isScalar byte = true)
      (present : bytes ≠ []) : Json .value bound bytes
  | string {bound : Nat} {body : Bytes} (chars : Chars body) : Json .value bound (quoted body)
  | emptyArray {bound : Nat} {gap : Bytes} (blank : Blank gap) :
      Json .value (bound + 1) (0x5B :: (gap ++ [0x5D]))
  | array {bound : Nat} {inside : Bytes} (elements : Json .elements bound inside) :
      Json .value (bound + 1) (0x5B :: (inside ++ [0x5D]))
  | emptyObject {bound : Nat} {gap : Bytes} (blank : Blank gap) :
      Json .value (bound + 1) (0x7B :: (gap ++ [0x7D]))
  | object {bound : Nat} {inside : Bytes} (members : Json .members bound inside) :
      Json .value (bound + 1) (0x7B :: (inside ++ [0x7D]))
  | padded {bound : Nat} {before item after : Bytes} (blank : Blank before)
      (value : Json .value bound item) (blank' : Blank after) :
      Json .padded bound (before ++ (item ++ after))
  | lastElement {bound : Nat} {item : Bytes} (value : Json .padded bound item) :
      Json .elements bound item
  | element {bound : Nat} {item rest : Bytes} (value : Json .padded bound item)
      (more : Json .elements bound rest) : Json .elements bound (item ++ 0x2C :: rest)
  | lastMember {bound : Nat} {before key gap item : Bytes} (blank : Blank before)
      (chars : Chars key) (blank' : Blank gap) (value : Json .padded bound item) :
      Json .members bound (before ++ (quoted key ++ (gap ++ 0x3A :: item)))
  | member {bound : Nat} {before key gap item rest : Bytes} (blank : Blank before)
      (chars : Chars key) (blank' : Blank gap) (value : Json .padded bound item)
      (more : Json .members bound rest) :
      Json .members bound (before ++ (quoted key ++ (gap ++ 0x3A :: (item ++ 0x2C :: rest))))

/-- A top-level member whose key is spelled without escapes. -/
structure Field where
  before : Bytes
  key : Bytes
  gap : Bytes
  /-- The value with the white space around it. -/
  raw : Bytes
  bound : Nat
  blankBefore : Blank before
  plain : ∀ byte ∈ key, byte ≠ 0x22 ∧ byte ≠ 0x5C
  blankGap : Blank gap
  json : Json .padded bound raw

namespace Field

def text (field : Field) : Bytes :=
  field.before ++ (quoted field.key ++ (field.gap ++ 0x3A :: field.raw))

def named (name : String) (field : Field) : Bool := field.key = ascii name

end Field

/-- What stands between the braces. -/
def fieldsText : List Field → Bytes
  | [] => []
  | [field] => field.text
  | field :: next :: fields => field.text ++ 0x2C :: fieldsText (next :: fields)

/-- A text of one object with distinct keys. -/
structure Message where
  before : Bytes
  fields : List Field
  /-- The white space of an object without members. -/
  inner : Bytes
  after : Bytes
  blankBefore : Blank before
  blankInner : Blank inner
  blankAfter : Blank after
  distinct : (fields.map Field.key).Nodup

namespace Message

variable {Value : Type}

def text (message : Message) : Bytes :=
  message.before ++ 0x7B ::
    ((if message.fields = [] then message.inner else fieldsText message.fields) ++
      0x7D :: message.after)

/-- The text up to the comma after a member. -/
def upTo (message : Message) (front : List Field) (field : Field) : Bytes :=
  message.before ++ 0x7B ::
    (front.flatMap (fun field => field.text ++ [0x2C]) ++ (field.text ++ [0x2C]))

/-- There is a top-level member of a name. -/
def has (message : Message) (name : String) : Bool := message.fields.any (Field.named name)

/-- The parsed value of the top-level `id`, when it is short enough to be kept. -/
def idValue (parse : Bytes → Option Value) (message : Message) : Option Value :=
  (message.fields.find? (Field.named "id")).bind fun field =>
    if field.raw.length ≤ idCaptureBytes then parse field.raw else none

/-- What a message is by its top-level members. -/
def kind (parse : Bytes → Option Value) (message : Message) : OversizedKind Value :=
  if message.has "method" && !message.has "id" then .notification
  else if !message.has "method" && (message.has "result" || message.has "error") then .response
  else .request (message.idValue parse)

/-- The nesting of the whole text is within what the depth counts. -/
def Shallow (message : Message) : Prop := ∀ field ∈ message.fields, field.bound + 1 ≤ maxDepth

end Message

variable {Value : Type} {parse : Bytes → Option Value} {scan : Scan Value} {bytes : Bytes}

namespace Scan

/-- One more byte of a captured id. -/
def keepByte (capture : Option Bytes) (byte : UInt8) : Option Bytes :=
  capture.bind fun raw => if raw.length < idCaptureBytes then some (raw ++ [byte]) else none

/-- The bytes of a captured id. -/
def keep (capture : Option Bytes) (bytes : Bytes) : Option Bytes := bytes.foldl keepByte capture

/-- A scan that has passed over bytes. -/
def past (scan : Scan Value) (bytes : Bytes) : Scan Value :=
  { scan with capture := keep scan.capture bytes }

theorem captureByte_eq (scan : Scan Value) (byte : UInt8) :
    scan.captureByte byte = scan.past [byte] := by
  rw [captureByte, past]
  cases held : scan.capture with
  | none => 
      obtain ⟨_, _, _, _, _, _, _, _, _, _, _⟩ := scan
      cases held
      rfl
  | some raw =>
      dsimp only [keep, List.foldl_cons, List.foldl_nil, keepByte, Option.bind]
      split <;> rfl

theorem past_past (scan : Scan Value) (first second : Bytes) :
    (scan.past first).past second = scan.past (first ++ second) := by
  rw [past, past, past, keep, keep, keep, List.foldl_append]

theorem keep_none (bytes : Bytes) : keep none bytes = none := by
  induction bytes with
  | nil => rfl
  | cons byte bytes induction => exact induction

theorem keep_some (raw bytes : Bytes) (fits : raw.length ≤ idCaptureBytes) :
    keep (some raw) bytes =
      if raw.length + bytes.length ≤ idCaptureBytes then some (raw ++ bytes) else none := by
  induction bytes generalizing raw with
  | nil => simp [keep, fits]
  | cons byte bytes induction =>
      rw [keep, List.foldl_cons, ← keep, keepByte, Option.bind_some]
      split
      next room =>
        rw [induction _ (by rw [List.length_append]; exact room)]
        simp [Nat.add_comm, Nat.add_left_comm]
      next full =>
        rw [keep_none, if_neg]
        rw [List.length_cons]
        omega

theorem captureByte_of_none (empty : scan.capture = none) (byte : UInt8) :
    scan.captureByte byte = scan := by
  rw [captureByte, empty]

theorem endMember_of_none (empty : scan.capture = none) : scan.endMember parse = scan := by
  rw [endMember, empty]

theorem past_of_none (absent : scan.capture = none) (bytes : Bytes) : scan.past bytes = scan := by
  rw [past, absent, keep_none, ← absent]

/-- Outside of strings, inside of a value or deeper. -/
structure Inside (scan : Scan Value) : Prop where
  outside : scan.inString = false
  unescaped : scan.escaped = false
  deep : 1 ≤ scan.depth
  value : scan.atTop = true → scan.member = .value

/-- Outside of strings, below the top-level members. -/
structure Deep (scan : Scan Value) : Prop where
  outside : scan.inString = false
  unescaped : scan.escaped = false
  deep : 2 ≤ scan.depth

theorem Deep.atTop (deep : scan.Deep) : scan.atTop = false := by
  have below := deep.deep
  rw [Scan.atTop, Bool.and_eq_false_iff]
  exact .inr (decide_eq_false (by omega))

theorem Deep.inside (deep : scan.Deep) : scan.Inside :=
  ⟨deep.outside, deep.unescaped, by have := deep.deep; omega, by simp [deep.atTop]⟩

theorem Inside.past (inside : scan.Inside) (bytes : Bytes) : (scan.past bytes).Inside :=
  ⟨inside.outside, inside.unescaped, inside.deep, inside.value⟩

theorem Deep.past (deep : scan.Deep) (bytes : Bytes) : (scan.past bytes).Deep :=
  ⟨deep.outside, deep.unescaped, deep.deep⟩

theorem feed_append' (scan : Scan Value) (left right : Bytes) :
    scan.feed parse (left ++ right) = (scan.feed parse left).feed parse right :=
  (feed_append parse scan left right).symm

theorem feed_cons (scan : Scan Value) (byte : UInt8) (bytes : Bytes) :
    scan.feed parse (byte :: bytes) = (scan.step parse byte).feed parse bytes := rfl

/-- A byte that no token begins or ends with. -/
def isPlain (byte : UInt8) : Bool :=
  byte ∉ ([0x22, 0x7B, 0x5B, 0x7D, 0x5D, 0x3A, 0x2C] : Bytes)

theorem step_plain (outside : scan.inString = false) {byte : UInt8} (plain : isPlain byte = true) :
    scan.step parse byte = scan.past [byte] := by
  simp only [isPlain, decide_eq_true_eq, List.mem_cons, List.not_mem_nil, or_false, not_or]
    at plain
  rw [← captureByte_eq, step]
  simp [outside, plain]

theorem feed_plain (outside : scan.inString = false) (plain : ∀ byte ∈ bytes, isPlain byte = true) :
    scan.feed parse bytes = scan.past bytes := by
  induction bytes generalizing scan with
  | nil => rfl
  | cons byte bytes induction =>
      obtain ⟨first, rest⟩ := List.forall_mem_cons.mp plain
      have next : (scan.past [byte]).inString = false := outside
      rw [feed_cons, step_plain outside first, induction next rest, past_past]
      rfl

theorem isPlain_of_isBlank {byte : UInt8} (blank : isBlank byte = true) : isPlain byte = true := by
  simp only [isBlank, decide_eq_true_eq, List.mem_cons, List.not_mem_nil, or_false] at blank
  rcases blank with rfl | rfl | rfl | rfl <;> decide

theorem isPlain_of_isScalar {byte : UInt8} (scalar : isScalar byte = true) :
    isPlain byte = true := by
  by_contra special
  simp only [isPlain, decide_eq_true_eq, List.mem_cons, List.not_mem_nil, or_false,
    not_not] at special
  rcases special with rfl | rfl | rfl | rfl | rfl | rfl | rfl <;> revert scalar <;> decide

theorem feed_blank (outside : scan.inString = false) (blank : Blank bytes) :
    scan.feed parse bytes = scan.past bytes :=
  feed_plain outside fun byte member => isPlain_of_isBlank (blank byte member)

theorem Deep.step_separator (deep : scan.Deep) {byte : UInt8}
    (separator : byte = 0x3A ∨ byte = 0x2C) :
    scan.step parse byte = scan.past [byte] := by
  rw [← captureByte_eq, step]
  rcases separator with rfl | rfl <;> simp [deep.outside, deep.atTop]

theorem step_inString (inString : scan.inString = true) (byte : UInt8) :
    scan.step parse byte = scan.stepInString byte := by
  rw [step, if_pos inString]

theorem member_stringByte (scan : Scan Value) (byte : UInt8) :
    (scan.stringByte byte).member = scan.member := by
  rw [stringByte]
  split_ifs <;> rfl

theorem atTop_stringByte (scan : Scan Value) (byte : UInt8) :
    (scan.stringByte byte).atTop = scan.atTop := by
  rw [stringByte]
  split_ifs <;> rfl

theorem stepInString_of_notKey (notKey : scan.atTop = true → scan.member = .value)
    (byte : UInt8) : scan.stepInString byte = (scan.stringByte byte).past [byte] := by
  rw [stepInString, ← captureByte_eq]
  rw [member_stringByte, atTop_stringByte]
  cases top : scan.atTop with
  | false => simp
  | true => simp [notKey top]

theorem stringByte_plain (unescaped : scan.escaped = false) {byte : UInt8}
    (notQuote : byte ≠ 0x22) (notEscape : byte ≠ 0x5C) : scan.stringByte byte = scan := by
  rw [stringByte, unescaped, if_neg (by decide), if_neg notEscape, if_neg notQuote]

theorem stringByte_escape (unescaped : scan.escaped = false) (byte : UInt8) :
    ((scan.stringByte 0x5C).past [0x5C]).stringByte byte = scan.past [0x5C] := by
  obtain ⟨depth, object, inString, escaped, member, key, capture, id, idSeen, method,
    outcome⟩ := scan
  cases unescaped
  rfl

theorem feed_chars (chars : Chars bytes) (inString : scan.inString = true)
    (unescaped : scan.escaped = false) (notKey : scan.atTop = true → scan.member = .value) :
    scan.feed parse bytes = scan.past bytes := by
  induction chars generalizing scan with
  | done => rfl
  | @plain byte rest notQuote notEscape _ induction =>
      rw [feed_cons, step_inString inString, stepInString_of_notKey notKey,
        stringByte_plain unescaped notQuote notEscape,
        @induction (scan.past [byte]) inString unescaped notKey, past_past]
      rfl
  | @escape byte rest _ induction =>
      have escaped : ((scan.stringByte 0x5C).past [0x5C]).inString = true := by
        rw [stringByte, unescaped]
        exact inString
      have still : ((scan.stringByte 0x5C).past [0x5C]).atTop = true →
          ((scan.stringByte 0x5C).past [0x5C]).member = .value := by
        rw [stringByte, unescaped]
        exact notKey
      rw [feed_cons, feed_cons, step_inString inString, stepInString_of_notKey notKey,
        step_inString escaped, stepInString_of_notKey still, stringByte_escape unescaped,
        @induction ((scan.past [0x5C]).past [byte]) inString unescaped notKey, past_past, past_past]
      rfl

theorem step_quote (inside : scan.Inside) :
    scan.step parse 0x22 = ({ scan with inString := true } : Scan Value).past [0x22] := by
  rw [step, inside.outside, ← captureByte_eq]
  have top : ({ scan with inString := true } : Scan Value).atTop = scan.atTop := rfl
  rw [if_neg (by decide), if_pos rfl]
  dsimp only
  rw [top]
  cases held : scan.atTop with
  | false => rfl
  | true => simp [inside.value held]

theorem stringByte_close (inside : scan.Inside) (bytes : Bytes) :
    (({ scan with inString := true } : Scan Value).past bytes).stringByte 0x22 =
      scan.past bytes := by
  obtain ⟨depth, object, inString, escaped, member, key, capture, id, idSeen, method,
    outcome⟩ := scan
  obtain ⟨rfl, rfl, -, -⟩ := inside
  rfl

theorem feed_quoted {body : Bytes} (chars : Chars body) (inside : scan.Inside) :
    scan.feed parse (quoted body) = scan.past (quoted body) := by
  rw [quoted, feed_cons, step_quote inside, feed_append',
    @feed_chars _ _ (({ scan with inString := true } : Scan Value).past [0x22]) _ chars rfl
      inside.unescaped inside.value, past_past, feed_cons, step_inString (by rfl),
    @stepInString_of_notKey _ (({ scan with inString := true } : Scan Value).past _) inside.value,
    stringByte_close inside, past_past]
  rfl

theorem step_open (inside : scan.Inside) (room : scan.depth + 1 ≤ maxDepth) {byte : UInt8}
    (opens : byte = 0x7B ∨ byte = 0x5B) :
    scan.step parse byte = ({ scan with depth := scan.depth + 1 } : Scan Value).past [byte] := by
  have deep : scan.depth ≠ 0 := by
    have := inside.deep
    omega
  rw [step, captureByte_eq]
  rcases opens with rfl | rfl <;>
    simp [inside.outside, deep, past, Nat.min_eq_left room]

theorem step_close (deep : scan.Deep) {byte : UInt8} (closes : byte = 0x7D ∨ byte = 0x5D) :
    scan.step parse byte = ({ scan with depth := scan.depth - 1 } : Scan Value).past [byte] := by
  rw [step, captureByte_eq]
  rcases closes with rfl | rfl <;> simp [deep.outside, deep.atTop, past]

/-- Where a piece is passed over. -/
def Place (scan : Scan Value) : Piece → Prop
  | .value => scan.Inside
  | .padded => scan.Inside
  | .elements => scan.Deep
  | .members => scan.Deep

/-- What stands between two brackets that enclose a piece. -/
theorem feed_enclosed {inside : Bytes} {opening closing : UInt8}
    (opens : opening = 0x7B ∨ opening = 0x5B) (closes : closing = 0x7D ∨ closing = 0x5D)
    (place : scan.Inside) (room : scan.depth + 1 ≤ maxDepth)
    (passed : ∀ deeper : Scan Value, deeper.Deep → deeper.depth = scan.depth + 1 →
      deeper.feed parse inside = deeper.past inside) :
    scan.feed parse (opening :: (inside ++ [closing])) =
      scan.past (opening :: (inside ++ [closing])) := by
  have deep : (({ scan with depth := scan.depth + 1 } : Scan Value).past [opening]).Deep :=
    ⟨place.outside, place.unescaped, Nat.succ_le_succ place.deep⟩
  have closed := @step_close _ parse _ (deep.past inside) _ closes
  rw [feed_cons, step_open place room opens, feed_append', passed _ deep rfl, feed_cons, closed]
  simp only [past, keep, List.foldl_append, List.foldl_cons, List.foldl_nil, Nat.add_sub_cancel]
  rfl

theorem feed_label {before key gap : Bytes} (deep : scan.Deep) (blank : Blank before)
    (chars : Chars key) (blank' : Blank gap) (rest : Bytes) :
    scan.feed parse (before ++ (quoted key ++ (gap ++ 0x3A :: rest))) =
      (scan.past (before ++ (quoted key ++ (gap ++ [0x3A])))).feed parse rest := by
  have first := deep.past before
  have second := first.past (quoted key)
  rw [feed_append', feed_blank deep.outside blank, feed_append', feed_quoted chars first.inside,
    feed_append', feed_blank second.outside blank', feed_cons,
    (second.past gap).step_separator (.inl rfl), past_past, past_past, past_past]

/-- A value, or what stands inside of one, is passed over. -/
theorem feed_json {piece : Piece} {bound : Nat} (json : Json piece bound bytes)
    (place : scan.Place piece) (room : scan.depth + bound ≤ maxDepth) :
    scan.feed parse bytes = scan.past bytes := by
  induction json generalizing scan with
  | scalar scalar => exact feed_plain place.outside fun byte member =>
      isPlain_of_isScalar (scalar byte member)
  | string chars => exact feed_quoted chars place
  | emptyArray blank =>
      exact feed_enclosed (.inr rfl) (.inr rfl) place (by omega) fun _ deep _ =>
        feed_blank deep.outside blank
  | array _ induction =>
      exact feed_enclosed (.inr rfl) (.inr rfl) place (by omega) fun _ deep below =>
        induction deep (by omega)
  | emptyObject blank =>
      exact feed_enclosed (.inl rfl) (.inl rfl) place (by omega) fun _ deep _ =>
        feed_blank deep.outside blank
  | object _ induction =>
      exact feed_enclosed (.inl rfl) (.inl rfl) place (by omega) fun _ deep below =>
        induction deep (by omega)
  | @padded _ before item after blank _ blank' induction =>
      have inside : scan.Inside := place
      rw [feed_append', feed_blank inside.outside blank, feed_append',
        @induction (scan.past before) (inside.past before) room,
        @feed_blank _ _ ((scan.past before).past item) _ inside.outside blank', past_past,
        past_past]
  | lastElement _ induction => exact induction (Deep.inside place) room
  | @element _ item rest _ _ first more =>
      have deep : scan.Deep := place
      rw [feed_append', first deep.inside room, feed_cons,
        (deep.past item).step_separator (.inr rfl),
        @more ((scan.past item).past [0x2C]) ((deep.past item).past [0x2C]) room, past_past,
        past_past]
      rfl
  | @lastMember _ before key gap item blank chars blank' _ induction =>
      have deep : scan.Deep := place
      rw [feed_label deep blank chars blank', @induction (scan.past _) (deep.past _).inside room,
        past_past]
      simp
  | @member _ before key gap item rest blank chars blank' _ _ first more =>
      have deep : scan.Deep := place
      rw [feed_label deep blank chars blank', feed_append',
        @first (scan.past _) (deep.past _).inside room, feed_cons,
        ((deep.past _).past item).step_separator (.inr rfl),
        @more (((scan.past _).past item).past [0x2C]) (((deep.past _).past item).past [0x2C]) room,
        past_past, past_past, past_past]
      simp

end Scan

end

variable {Value : Type} {parse : Bytes → Option Value} {scan : Scan Value} {bytes : Bytes}

namespace Scan

/-- Before a key of the top-level object. -/
structure Ready (scan : Scan Value) : Prop where
  outside : scan.inString = false
  unescaped : scan.escaped = false
  object : scan.object = true
  depth : scan.depth = 1
  member : scan.member = .key
  empty : scan.capture = none

theorem Ready.atTop (ready : scan.Ready) : scan.atTop = true := by
  rw [Scan.atTop, ready.object, ready.depth]
  rfl

section

variable (inString : scan.inString = true) (unescaped : scan.escaped = false)
  (top : scan.atTop = true) (inKey : scan.member = .inKey)
include inString unescaped top inKey

theorem step_keyByte {byte : UInt8} (plain : byte ≠ 0x22 ∧ byte ≠ 0x5C) :
    scan.step parse byte =
      if scan.key.length < keyCaptureBytes then { scan with key := scan.key ++ [byte] }
      else scan := by
  rw [step_inString inString, stepInString, stringByte_plain unescaped plain.1 plain.2]
  simp [inKey, top, inString]

theorem feed_keyBytes (plain : ∀ byte ∈ bytes, byte ≠ 0x22 ∧ byte ≠ 0x5C) (held : Bytes)
    (key : scan.key = held.take keyCaptureBytes) :
    scan.feed parse bytes = { scan with key := (held ++ bytes).take keyCaptureBytes } := by
  induction bytes generalizing scan held with
  | nil =>
      rw [List.append_nil, ← key]
      rfl
  | cons byte bytes induction =>
      obtain ⟨first, rest⟩ := List.forall_mem_cons.mp plain
      have next : scan.step parse byte =
          { scan with key := (held ++ [byte]).take keyCaptureBytes } := by
        rw [step_keyByte inString unescaped top inKey first, key, List.length_take]
        split
        next room =>
          have short : held.length < keyCaptureBytes := by omega
          rw [List.take_of_length_le short.le, List.take_of_length_le]
          rw [List.length_append]
          exact short
        next full =>
          have long : keyCaptureBytes ≤ held.length := by omega
          rw [List.take_append_of_le_length long, ← key]
      have later := @induction { scan with key := (held ++ [byte]).take keyCaptureBytes } inString
        unescaped top inKey rest (held ++ [byte]) rfl
      rw [feed_cons, next, later, List.append_assoc]
      rfl

end

/-- A top-level key. -/
theorem Ready.feed_key (ready : scan.Ready) {key : Bytes}
    (plain : ∀ byte ∈ key, byte ≠ 0x22 ∧ byte ≠ 0x5C) :
    scan.feed parse (quoted key) =
      { scan with member := .colon, key := key.take keyCaptureBytes } := by
  have opened : scan.step parse 0x22 =
      { scan with inString := true, member := .inKey, key := [] } := by
    have top : ({ scan with inString := true } : Scan Value).atTop = true := ready.atTop
    rw [step, ready.outside, if_neg (by decide), if_pos rfl]
    dsimp only
    rw [top, ready.member]
    rfl
  have inside := @feed_keyBytes _ parse
    ({ scan with inString := true, member := .inKey, key := [] } : Scan Value) _ rfl
    ready.unescaped ready.atTop rfl plain [] rfl
  rw [quoted, feed_cons, opened, feed_append', inside, feed_cons, step_inString (by rfl)]
  have top := ready.atTop
  have outside := ready.outside
  have unescaped := ready.unescaped
  obtain ⟨depth, object, inString, escaped, member, held, capture, id, idSeen, method,
    outcome⟩ := scan
  cases outside
  cases unescaped
  rw [Scan.atTop] at top
  simp [stepInString, stringByte, Scan.atTop, feed] at top ⊢
  simp [top]

/-- Inside of the value of a member. -/
def begun (scan : Scan Value) (field : Field) : Scan Value :=
  { scan with
    member := .value
    key := field.key.take keyCaptureBytes
    capture := if field.named "id" then some [] else none
    idSeen := scan.idSeen || field.named "id"
    method := scan.method || field.named "method"
    outcome := scan.outcome || (field.named "result" || field.named "error") }

/-- After a whole member. -/
def absorb (parse : Bytes → Option Value) (scan : Scan Value) (field : Field) : Scan Value :=
  { scan with
    key := field.key.take keyCaptureBytes
    id :=
      if field.named "id" && decide (field.raw.length ≤ idCaptureBytes) then parse field.raw
      else scan.id
    idSeen := scan.idSeen || field.named "id"
    method := scan.method || field.named "method"
    outcome := scan.outcome || (field.named "result" || field.named "error") }

theorem Ready.absorb (ready : scan.Ready) (field : Field) : (scan.absorb parse field).Ready :=
  ⟨ready.outside, ready.unescaped, ready.object, ready.depth, ready.member, ready.empty⟩

theorem take_key_iff {key name : Bytes} (short : name.length < keyCaptureBytes) :
    key.take keyCaptureBytes = name ↔ key = name := by
  constructor
  · intro same
    have length := congrArg List.length same
    rw [List.length_take] at length
    rwa [List.take_of_length_le (by omega)] at same
  · rintro rfl
    exact List.take_of_length_le short.le

theorem Ready.beginValue (ready : scan.Ready) (field : Field) :
    ({ scan with member := .colon, key := field.key.take keyCaptureBytes } : Scan Value).beginValue =
      scan.begun field := by
  have empty := ready.empty
  have id := @take_key_iff field.key (ascii "id") (by decide)
  have method := @take_key_iff field.key (ascii "method") (by decide)
  have result := @take_key_iff field.key (ascii "result") (by decide)
  have error := @take_key_iff field.key (ascii "error") (by decide)
  rw [Scan.beginValue, begun]
  simp only [Field.named, id, method, result, error]
  by_cases isId : field.key = ascii "id"
  · simp [isId, show ascii "id" ≠ ascii "method" by decide,
      show ascii "id" ≠ ascii "result" by decide,
      show ascii "id" ≠ ascii "error" by decide]
  by_cases isMethod : field.key = ascii "method"
  · simp [isMethod, show ascii "method" ≠ ascii "id" by decide,
      show ascii "method" ≠ ascii "result" by decide,
      show ascii "method" ≠ ascii "error" by decide, empty]
  by_cases isOutcome : field.key = ascii "result" ∨ field.key = ascii "error"
  · simp [isId, isMethod, isOutcome, empty]
  · simp [isId, isMethod, isOutcome, empty]

section

variable (outside : scan.inString = false) (top : scan.atTop = true)
include outside top

theorem step_colon (colon : scan.member = .colon) : scan.step parse 0x3A = scan.beginValue := by
  rw [step]
  simp [outside, top, colon]

theorem step_comma : scan.step parse 0x2C = { scan.endMember parse with member := .key } := by
  rw [step]
  simp [outside, top]

theorem step_brace :
    scan.step parse 0x7D =
      { scan.endMember parse with depth := (scan.endMember parse).depth - 1 } := by
  rw [step]
  simp [outside, top]

end

theorem Ready.feed_field (ready : scan.Ready) (field : Field) (room : field.bound + 1 ≤ maxDepth) :
    scan.feed parse field.text = (scan.begun field).past field.raw := by
  have atColon : (({ scan with member := .colon, key := field.key.take keyCaptureBytes } :
      Scan Value).past field.gap).step parse 0x3A = scan.begun field := by
    rw [@past_of_none _ { scan with member := .colon, key := field.key.take keyCaptureBytes }
      ready.empty, ← ready.beginValue]
    exact step_colon ready.outside ready.atTop rfl
  have gap := @feed_blank _ parse
    ({ scan with member := .colon, key := field.key.take keyCaptureBytes } : Scan Value) field.gap
    ready.outside field.blankGap
  have inside : (scan.begun field).Inside :=
    ⟨ready.outside, ready.unescaped, ready.depth.ge, fun _ => rfl⟩
  have shallow : (scan.begun field).depth + field.bound ≤ maxDepth := by
    have depth : (scan.begun field).depth = 1 := ready.depth
    omega
  rw [Field.text, feed_append', feed_blank ready.outside field.blankBefore,
    past_of_none ready.empty, feed_append', ready.feed_key field.plain, feed_append', gap,
    feed_cons, atColon, feed_json field.json inside shallow]

theorem endMember_begun (scan : Scan Value) (empty : scan.capture = none) (field : Field) :
    ((scan.begun field).past field.raw).endMember parse =
      { scan.absorb parse field with member := .value } := by
  rw [endMember, past, begun, absorb]
  dsimp only
  cases isId : field.named "id" with
  | false => 
      rw [if_neg (by decide), keep_none]
      simp [empty]
  | true =>
      rw [if_pos rfl, keep_some [] field.raw (by decide)]
      simp only [List.length_nil, Nat.zero_add, List.nil_append]
      split
      next absent =>
        split at absent
        · cases absent
        next long => simp [long, empty]
      next raw kept =>
        split at kept
        next short =>
          obtain rfl := Option.some.inj kept
          simp [short, empty]
        · cases kept

theorem Ready.feed_comma (ready : scan.Ready) (field : Field) (room : field.bound + 1 ≤ maxDepth)
    (rest : Bytes) :
    scan.feed parse (field.text ++ 0x2C :: rest) = (scan.absorb parse field).feed parse rest := by
  have ended := @endMember_begun _ parse scan ready.empty field
  have next := @step_comma _ parse ((scan.begun field).past field.raw) ready.outside ready.atTop
  have member := ready.member
  rw [feed_append', ready.feed_field field room, feed_cons, next, ended]
  obtain ⟨depth, object, inString, escaped, member, key, capture, id, idSeen, method,
    outcome⟩ := scan
  cases member
  rfl

theorem Ready.feed_brace (ready : scan.Ready) (field : Field) (room : field.bound + 1 ≤ maxDepth)
    (rest : Bytes) :
    scan.feed parse (field.text ++ 0x7D :: rest) =
      ({ scan.absorb parse field with member := .value, depth := 0 } : Scan Value).feed parse
        rest := by
  have ended := @endMember_begun _ parse scan ready.empty field
  have next := @step_brace _ parse ((scan.begun field).past field.raw) ready.outside ready.atTop
  have depth : (scan.absorb parse field).depth = 1 := ready.depth
  rw [feed_append', ready.feed_field field room, feed_cons, next, ended]
  simp only [depth]

variable {fields : List Field}

theorem Ready.feed_fields (ready : scan.Ready) (present : fields ≠ [])
    (room : ∀ field ∈ fields, field.bound + 1 ≤ maxDepth) (rest : Bytes) :
    scan.feed parse (fieldsText fields ++ 0x7D :: rest) =
      ({ fields.foldl (Scan.absorb parse) scan with member := .value, depth := 0 } :
        Scan Value).feed parse rest := by
  induction fields generalizing scan with
  | nil => exact absurd rfl present
  | cons field fields induction =>
      obtain ⟨first, later⟩ := List.forall_mem_cons.mp room
      cases fields with
      | nil => exact ready.feed_brace field first rest
      | cons second fields =>
          rw [fieldsText, List.append_assoc, List.cons_append, ready.feed_comma field first,
            induction (ready.absorb field) (by simp) later, List.foldl_cons]
          simp

theorem idSeen_absorbed (fields : List Field) (scan : Scan Value) :
    (fields.foldl (absorb parse) scan).idSeen =
      (scan.idSeen || fields.any (Field.named "id")) := by
  induction fields generalizing scan with
  | nil => simp
  | cons field fields induction =>
      rw [List.foldl_cons, induction, List.any_cons, absorb, Bool.or_assoc]

theorem method_absorbed (fields : List Field) (scan : Scan Value) :
    (fields.foldl (absorb parse) scan).method =
      (scan.method || fields.any (Field.named "method")) := by
  induction fields generalizing scan with
  | nil => simp
  | cons field fields induction =>
      rw [List.foldl_cons, induction, List.any_cons, absorb, Bool.or_assoc]

theorem outcome_absorbed (fields : List Field) (scan : Scan Value) :
    (fields.foldl (absorb parse) scan).outcome =
      (scan.outcome || (fields.any (Field.named "result") || fields.any (Field.named "error"))) := by
  induction fields generalizing scan with
  | nil => simp
  | cons field fields induction =>
      rw [List.foldl_cons, induction, List.any_cons, List.any_cons, absorb]
      dsimp only
      ac_rfl

theorem find_of_distinct {field : Field} {name : String} (apart : field.key ∉ fields.map Field.key)
    (isNamed : field.named name = true) : fields.find? (Field.named name) = none := by
  rw [List.find?_eq_none]
  intro other member also
  apply apart
  rw [of_decide_eq_true isNamed, ← of_decide_eq_true also]
  exact List.mem_map_of_mem member

theorem id_absorbed (distinct : (fields.map Field.key).Nodup) (scan : Scan Value) :
    (fields.foldl (absorb parse) scan).id =
      (fields.find? (Field.named "id")).elim scan.id fun field =>
        if field.raw.length ≤ idCaptureBytes then parse field.raw else scan.id := by
  induction fields generalizing scan with
  | nil => rfl
  | cons field fields induction =>
      obtain ⟨apart, distinct⟩ := List.nodup_cons.mp distinct
      rw [List.foldl_cons, induction distinct]
      cases isId : field.named "id" with
      | true =>
          rw [find_of_distinct apart isId, List.find?_cons_of_pos isId]
          simp [absorb, isId]
      | false =>
          rw [List.find?_cons_of_neg (by simp [isId])]
          simp [absorb, isId]

/-- After the opening brace of the object. -/
def opened : Scan Value := { default with object := true, depth := 1 }

theorem ready_opened : (opened : Scan Value).Ready := ⟨rfl, rfl, rfl, rfl, rfl, rfl⟩

theorem feed_opening {blank : Bytes} (isBlank : Blank blank) (rest : Bytes) :
    (default : Scan Value).feed parse (blank ++ 0x7B :: rest) = opened.feed parse rest := by
  have start := @feed_blank _ parse (default : Scan Value) blank rfl isBlank
  rw [feed_append', start, past_of_none (by rfl), feed_cons]
  rfl

/-- What the members say. -/
structure Told (parse : Bytes → Option Value) (fields : List Field) (scan : Scan Value) : Prop where
  outside : scan.inString = false
  empty : scan.capture = none
  idSeen : scan.idSeen = fields.any (Field.named "id")
  method : scan.method = fields.any (Field.named "method")
  outcome : scan.outcome =
    (fields.any (Field.named "result") || fields.any (Field.named "error"))
  id : scan.id = (fields.find? (Field.named "id")).bind fun field =>
    if field.raw.length ≤ idCaptureBytes then parse field.raw else none

theorem Ready.absorbed (ready : scan.Ready) (fields : List Field) :
    (fields.foldl (Scan.absorb parse) scan).Ready := by
  induction fields generalizing scan with
  | nil => exact ready
  | cons field fields induction => exact induction (ready.absorb field)

theorem told_absorbed (distinct : (fields.map Field.key).Nodup) :
    Told parse fields (fields.foldl (absorb parse) opened) where
  outside := (ready_opened.absorbed fields).outside
  empty := (ready_opened.absorbed fields).empty
  idSeen := (idSeen_absorbed fields opened).trans (Bool.false_or _)
  method := (method_absorbed fields opened).trans (Bool.false_or _)
  outcome := (outcome_absorbed fields opened).trans (Bool.false_or _)
  id := by
    rw [id_absorbed distinct]
    cases fields.find? (Field.named "id") <;> rfl

variable {message : Message}

theorem told_message (shallow : message.Shallow) :
    Told parse message.fields (default.feed parse message.text) := by
  rw [Message.text, feed_opening message.blankBefore]
  have told := @told_absorbed _ parse message.fields message.distinct
  by_cases none : message.fields = []
  · rw [if_pos none, feed_append', feed_blank (by rfl) message.blankInner,
      past_of_none (by rfl), feed_cons]
    have closed := @step_brace _ parse (opened : Scan Value) rfl rfl
    rw [closed, feed_blank (by rfl) message.blankAfter, past_of_none (by rfl), none]
    exact ⟨rfl, rfl, rfl, rfl, rfl, rfl⟩
  · have trailing := @feed_blank _ parse
      ({ message.fields.foldl (Scan.absorb parse) opened with member := .value, depth := 0 } :
        Scan Value) message.after told.outside message.blankAfter
    have quiet := @past_of_none _
      ({ message.fields.foldl (Scan.absorb parse) opened with member := .value, depth := 0 } :
        Scan Value) told.empty message.after
    rw [if_neg none, ready_opened.feed_fields none shallow, trailing, quiet]
    exact ⟨told.outside, told.empty, told.idSeen, told.method, told.outcome, told.id⟩

theorem Told.kind (told : Told parse message.fields scan) :
    scan.kind parse = message.kind parse := by
  rw [Scan.kind, endMember_of_none told.empty, told.idSeen, told.method, told.outcome, told.id]
  rfl

end Scan

end Crystalline.Stdio
