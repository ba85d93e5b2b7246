import Crystalline.Stdio.TopLevel
import Mathlib.Data.Bool.AllAny

/-!
# A message however it is cut

The scan of a dropped message says what its top-level members say, whatever chunks it
came in, and an id that was read is left by whatever is still to come.
-/

namespace Crystalline.Stdio

variable {Value : Type} {parse : Bytes → Option Value} {scan : Scan Value} {bytes : Bytes}

namespace Scan

/-- Without the flag that an id was seen. -/
def forget (scan : Scan Value) : Scan Value := { scan with idSeen := false }

theorem captureByte_forget (scan : Scan Value) (byte : UInt8) :
    (scan.captureByte byte).forget = scan.forget.captureByte byte := by
  rw [captureByte_eq, captureByte_eq]
  rfl

theorem endMember_forget (scan : Scan Value) :
    (scan.endMember parse).forget = scan.forget.endMember parse := by
  obtain ⟨depth, object, inString, escaped, member, key, capture, id, idSeen, method,
    outcome⟩ := scan
  cases capture <;> rfl

theorem stringByte_forget (scan : Scan Value) (byte : UInt8) :
    (scan.stringByte byte).forget = scan.forget.stringByte byte := by
  have escaped : scan.forget.escaped = scan.escaped := rfl
  rw [stringByte, stringByte, escaped]
  split_ifs <;> rfl

theorem stepInString_forget (scan : Scan Value) (byte : UInt8) :
    (scan.stepInString byte).forget = scan.forget.stepInString byte := by
  rw [stepInString, stepInString, ← stringByte_forget]
  generalize scan.stringByte byte = next
  have member : next.forget.member = next.member := rfl
  have top : next.forget.atTop = next.atTop := rfl
  have inString : next.forget.inString = next.inString := rfl
  have key : next.forget.key = next.key := rfl
  rw [member, top, inString, key]
  split_ifs
  · rfl
  · rfl
  · rfl
  · exact captureByte_forget next byte

theorem beginValue_forget (scan : Scan Value) :
    scan.beginValue.forget = scan.forget.beginValue.forget := by
  have key : scan.forget.key = scan.key := rfl
  rw [beginValue, beginValue, key]
  split_ifs <;> rfl

theorem byte_cases (byte : UInt8) : byte = 0x22 ∨ (byte = 0x7B ∨ byte = 0x5B) ∨
    (byte = 0x7D ∨ byte = 0x5D) ∨ byte = 0x3A ∨ byte = 0x2C ∨ isPlain byte = true := by
  by_cases quote : byte = 0x22
  · exact .inl quote
  by_cases opens : byte = 0x7B ∨ byte = 0x5B
  · exact .inr (.inl opens)
  by_cases closes : byte = 0x7D ∨ byte = 0x5D
  · exact .inr (.inr (.inl closes))
  by_cases colon : byte = 0x3A
  · exact .inr (.inr (.inr (.inl colon)))
  by_cases comma : byte = 0x2C
  · exact .inr (.inr (.inr (.inr (.inl comma))))
  · rw [not_or] at opens closes
    simp [isPlain, quote, opens, closes, colon, comma]

section

variable (outside : scan.inString = false)
include outside

theorem step_quote_eq :
    scan.step parse 0x22 =
      if scan.atTop && scan.member = .key then
        { scan with inString := true, member := .inKey, key := [] }
      else ({ scan with inString := true } : Scan Value).captureByte 0x22 := by
  rw [step, outside, if_neg (by decide), if_pos rfl]
  rfl

variable {byte : UInt8}

theorem step_open_eq (opens : byte = 0x7B ∨ byte = 0x5B) :
    scan.step parse byte =
      if scan.depth = 0 then
        { scan with object := decide (byte = 0x7B), member := .key, depth := min 1 maxDepth }
      else
        { scan.captureByte byte with depth := min ((scan.captureByte byte).depth + 1) maxDepth } := by
  rw [step]
  rcases opens with rfl | rfl <;> simp [outside] <;> split <;> simp_all

theorem step_close_eq (closes : byte = 0x7D ∨ byte = 0x5D) :
    scan.step parse byte =
      if scan.atTop then { scan.endMember parse with depth := (scan.endMember parse).depth - 1 }
      else { scan.captureByte byte with depth := (scan.captureByte byte).depth - 1 } := by
  rw [step]
  rcases closes with rfl | rfl <;> simp [outside] <;> split <;> rfl

theorem step_colon_eq :
    scan.step parse 0x3A =
      if scan.atTop && scan.member = .colon then scan.beginValue else scan.captureByte 0x3A := by
  rw [step]
  simp [outside]

theorem step_comma_eq :
    scan.step parse 0x2C =
      if scan.atTop then { scan.endMember parse with member := .key }
      else scan.captureByte 0x2C := by
  rw [step]
  simp [outside]

end

/-- The flag is written and never read. -/
theorem step_forget (scan : Scan Value) (byte : UInt8) :
    (scan.step parse byte).forget = (scan.forget.step parse byte).forget := by
  have twice (scan : Scan Value) : scan.forget.forget = scan.forget := rfl
  have top : scan.forget.atTop = scan.atTop := rfl
  have member : scan.forget.member = scan.member := rfl
  have depth : scan.forget.depth = scan.depth := rfl
  have captured := captureByte_forget scan byte
  have ended := @endMember_forget _ parse scan
  cases inString : scan.inString with
  | true =>
      rw [step_inString inString, @step_inString _ _ scan.forget inString, stepInString_forget,
        ← stepInString_forget, twice]
  | false =>
      have outside : scan.forget.inString = false := inString
      rcases byte_cases byte with rfl | opens | closes | rfl | rfl | plain
      · rw [step_quote_eq inString, step_quote_eq outside, top, member]
        split
        · rfl
        · exact (captureByte_forget { scan with inString := true } 0x22).trans
            (captureByte_forget { scan.forget with inString := true } 0x22).symm
      · rw [step_open_eq inString opens, step_open_eq outside opens, depth, ← captured]
        split <;> rfl
      · rw [step_close_eq inString closes, step_close_eq outside closes, top, ← captured, ← ended]
        split <;> rfl
      · rw [step_colon_eq inString, step_colon_eq outside, top, member, ← captured]
        split
        · exact beginValue_forget scan
        · rfl
      · rw [step_comma_eq inString, step_comma_eq outside, top, ← captured, ← ended]
        split <;> rfl
      · rw [step_plain inString plain, step_plain outside plain]
        rfl

theorem feed_forget (scan : Scan Value) (bytes : Bytes) :
    (scan.feed parse bytes).forget = (scan.forget.feed parse bytes).forget := by
  induction bytes generalizing scan with
  | nil => rfl
  | cons byte bytes induction =>
      rw [feed_cons, feed_cons, induction, induction (scan.forget.step parse byte), step_forget]

/-- Nothing is captured, and the id is as it was. -/
def Idle (before after : Scan Value) : Prop :=
  after.capture = none ∧ after.id = before.id ∧ after.idSeen = before.idSeen

theorem stringByte_idle (empty : scan.capture = none) (byte : UInt8) :
    scan.Idle (scan.stringByte byte) := by
  rw [stringByte]
  split_ifs <;> exact ⟨empty, rfl, rfl⟩

theorem stepInString_idle (empty : scan.capture = none) (byte : UInt8) :
    scan.Idle (scan.stepInString byte) := by
  have read := stringByte_idle empty byte
  rw [stepInString, captureByte_of_none read.1]
  split_ifs <;> exact read

theorem beginValue_idle (empty : scan.capture = none) :
    scan.Idle scan.beginValue ∨ scan.beginValue.idSeen = true := by
  rw [beginValue]
  split_ifs
  · exact .inr rfl
  · exact .inl ⟨empty, rfl, rfl⟩
  · exact .inl ⟨empty, rfl, rfl⟩
  · exact .inl ⟨empty, rfl, rfl⟩

/-- With no id being captured, a byte leaves the id, or it begins one. -/
theorem step_idle (empty : scan.capture = none) (byte : UInt8) :
    scan.Idle (scan.step parse byte) ∨ (scan.step parse byte).idSeen = true := by
  have captured := captureByte_of_none empty byte
  have ended := @endMember_of_none _ parse _ empty
  cases inString : scan.inString with
  | true =>
      rw [step_inString inString]
      exact .inl (stepInString_idle empty byte)
  | false =>
      rcases byte_cases byte with rfl | opens | closes | rfl | rfl | plain
      · rw [step_quote_eq inString, @captureByte_of_none _ { scan with inString := true } empty]
        split <;> exact .inl ⟨empty, rfl, rfl⟩
      · rw [step_open_eq inString opens, captured]
        split <;> exact .inl ⟨empty, rfl, rfl⟩
      · rw [step_close_eq inString closes, captured, ended]
        split <;> exact .inl ⟨empty, rfl, rfl⟩
      · rw [step_colon_eq inString, captured]
        split
        · exact beginValue_idle empty
        · exact .inl ⟨empty, rfl, rfl⟩
      · rw [step_comma_eq inString, captured, ended]
        split <;> exact .inl ⟨empty, rfl, rfl⟩
      · rw [step_plain inString plain, past_of_none empty]
        exact .inl ⟨empty, rfl, rfl⟩

/-- An id that was seen stays seen. -/
theorem idSeen_step (seen : scan.idSeen = true) (byte : UInt8) :
    (scan.step parse byte).idSeen = true := by
  have captured (scan : Scan Value) (byte : UInt8) :
      (scan.captureByte byte).idSeen = scan.idSeen := by
    rw [captureByte_eq]
    rfl
  have ended : (scan.endMember parse).idSeen = true := by
    rw [endMember]
    split <;> exact seen
  have read : (scan.stringByte byte).idSeen = true := by
    rw [stringByte]
    split_ifs <;> exact seen
  cases inString : scan.inString with
  | true =>
      rw [step_inString inString, stepInString]
      split_ifs
      · exact read
      · exact read
      · exact read
      · exact (captured _ byte).trans read
  | false =>
      have whole := captured scan byte
      rcases byte_cases byte with rfl | opens | closes | rfl | rfl | plain
      · rw [step_quote_eq inString]
        split
        · exact seen
        · exact (captured _ _).trans seen
      · rw [step_open_eq inString opens]
        split
        · exact seen
        · exact whole.trans seen
      · rw [step_close_eq inString closes]
        split
        · exact ended
        · exact whole.trans seen
      · rw [step_colon_eq inString, beginValue]
        split_ifs
        · rfl
        · exact seen
        · exact seen
        · exact seen
        · exact whole.trans seen
      · rw [step_comma_eq inString]
        split
        · exact ended
        · exact whole.trans seen
      · rw [step_plain inString plain]
        exact seen

theorem idSeen_feed (seen : scan.idSeen = true) (bytes : Bytes) :
    (scan.feed parse bytes).idSeen = true := by
  induction bytes generalizing scan with
  | nil => exact seen
  | cons byte bytes induction => exact induction (idSeen_step seen byte)

theorem feed_idle (empty : scan.capture = none)
    (unseen : (scan.feed parse bytes).idSeen = false) : scan.Idle (scan.feed parse bytes) := by
  induction bytes generalizing scan with
  | nil => exact ⟨empty, rfl, rfl⟩
  | cons byte bytes induction =>
      rcases step_idle empty byte with idle | seen
      · obtain ⟨quiet, id, flag⟩ := @induction (scan.step parse byte) idle.1 unseen
        exact ⟨quiet, id.trans idle.2.1, flag.trans idle.2.2⟩
      · have still := @idSeen_feed _ parse _ seen bytes
        rw [feed_cons, still] at unseen
        cases unseen

/-- What follows the id of a message leaves the id, wherever it is cut. -/
theorem Ready.feed_after_id (ready : scan.Ready) {fields : List Field} (present : fields ≠ [])
    (room : ∀ field ∈ fields, field.bound + 1 ≤ maxDepth)
    (others : fields.any (Field.named "id") = false) {after more later : Bytes}
    (blank : Blank after) (cut : fieldsText fields ++ 0x7D :: after = more ++ later) :
    (scan.feed parse more).capture = none ∧ (scan.feed parse more).id = scan.id := by
  -- the run begins without the flag, so that a second id would raise it
  have forgotten : scan.forget.Ready :=
    ⟨ready.outside, ready.unescaped, ready.object, ready.depth, ready.member, ready.empty⟩
  have whole : (scan.forget.feed parse (more ++ later)).idSeen = false := by
    have ended := @Ready.absorbed _ parse _ forgotten fields
    have trailing := @feed_blank _ parse
      ({ fields.foldl (Scan.absorb parse) scan.forget with member := .value, depth := 0 } :
        Scan Value) after ended.outside blank
    rw [← cut, forgotten.feed_fields present room, trailing]
    exact (idSeen_absorbed fields scan.forget).trans (by rw [others]; rfl)
  have unseen : (scan.forget.feed parse more).idSeen = false := by
    cases seen : (scan.forget.feed parse more).idSeen with
    | false => rfl
    | true =>
        rw [feed_append', idSeen_feed seen later] at whole
        cases whole
  obtain ⟨quiet, id, -⟩ := feed_idle forgotten.empty unseen
  have same := @feed_forget _ parse scan more
  exact ⟨(congrArg Scan.capture same).trans quiet, (congrArg Scan.id same).trans id⟩

theorem Ready.feed_commas (ready : scan.Ready) {fields : List Field}
    (room : ∀ field ∈ fields, field.bound + 1 ≤ maxDepth) :
    scan.feed parse (fields.flatMap fun field => field.text ++ [0x2C]) =
      fields.foldl (Scan.absorb parse) scan := by
  induction fields generalizing scan with
  | nil => rfl
  | cons field fields induction =>
      obtain ⟨first, later⟩ := List.forall_mem_cons.mp room
      rw [List.flatMap_cons, feed_append', ready.feed_comma field first]
      exact induction (ready.absorb field) later

/-- A scan fed chunk by chunk. -/
def feedAll (parse : Bytes → Option Value) (chunks : List Bytes) : Scan Value :=
  chunks.foldl (Scan.feed parse) default

theorem feedAll_eq (chunks : List Bytes) :
    feedAll parse chunks = default.feed parse chunks.flatten := by
  rw [Scan.feed, List.foldl_flatten]
  rfl

end Scan

theorem fieldsText_append (front : List Field) {back : List Field} (present : back ≠ []) :
    fieldsText (front ++ back) =
      front.flatMap (fun field => field.text ++ [0x2C]) ++ fieldsText back := by
  induction front with
  | nil => rfl
  | cons field front induction =>
      obtain ⟨next, rest, same⟩ := List.exists_cons_of_ne_nil
        (show front ++ back ≠ [] by simp [present])
      rw [List.cons_append, same, fieldsText, ← same, induction, List.flatMap_cons]
      simp

namespace Message

theorem text_eq_upTo (message : Message) {front back : List Field} {field : Field}
    (members : message.fields = front ++ field :: back) (present : back ≠ []) :
    message.text =
      message.upTo front field ++ (fieldsText back ++ 0x7D :: message.after) := by
  obtain ⟨next, rest, same⟩ := List.exists_cons_of_ne_nil present
  have inside : fieldsText (field :: back) = field.text ++ 0x2C :: fieldsText back := by
    rw [same]
    rfl
  rw [text, upTo, members, if_neg (by simp), fieldsText_append front (by simp), inside]
  simp

/-- The scan of a message, however its text is cut, says what its top-level members
say, and the id is read from every prefix that holds it and its comma. -/
theorem scanned (parse : Bytes → Option Value) (message : Message) (shallow : message.Shallow) :
    (∀ chunks : List Bytes, chunks.flatten = message.text →
      (Scan.feedAll parse chunks).kind parse = message.kind parse ∧
        ((Scan.feedAll parse chunks).endMember parse).id = message.idValue parse) ∧
    ∀ (front : List Field) (field : Field) (back : List Field) (chunks : List Bytes),
      message.fields = front ++ field :: back → field.named "id" = true → back ≠ [] →
      message.upTo front field <+: chunks.flatten → chunks.flatten <+: message.text →
      ((Scan.feedAll parse chunks).endMember parse).id = message.idValue parse := by
  constructor
  · intro chunks cut
    have told := @Scan.told_message _ parse message shallow
    rw [Scan.feedAll_eq, cut]
    refine ⟨told.kind, ?_⟩
    rw [Scan.endMember, told.empty]
    exact told.id
  · rintro front field back chunks members isId present ⟨more, shown⟩ ⟨later, whole⟩
    have rest : fieldsText back ++ 0x7D :: message.after = more ++ later := by
      rw [message.text_eq_upTo members present, ← shown, List.append_assoc] at whole
      exact (List.append_cancel_left whole).symm
    have room : ∀ other ∈ message.fields, other.bound + 1 ≤ maxDepth := shallow
    have split : message.fields = (front ++ [field]) ++ back := by simp [members]
    rw [split] at room
    obtain ⟨before, behind⟩ := List.forall_mem_append.mp room
    have distinct := message.distinct
    rw [split, List.map_append] at distinct
    have others : back.any (Field.named "id") = false := by
      rw [List.any_eq_false]
      intro other member also
      have here : field.key ∈ (front ++ [field]).map Field.key := List.mem_map_of_mem (by simp)
      exact (List.nodup_append.mp distinct).2.2 field.key here other.key
        (List.mem_map_of_mem member)
        ((of_decide_eq_true isId).trans (of_decide_eq_true also).symm)
    -- the scan at the comma behind the id
    have reached : (Scan.default : Scan Value).feed parse (message.upTo front field) =
        (front ++ [field]).foldl (Scan.absorb parse) Scan.opened := by
      rw [upTo, Scan.feed_opening message.blankBefore, ← Scan.ready_opened.feed_commas before]
      simp
    obtain ⟨quiet, id⟩ := @Scan.Ready.feed_after_id _ parse _ (Scan.ready_opened.absorbed
      (front ++ [field])) _ present behind others _ _ _ message.blankAfter rest
    have found : ∃ held, (front ++ [field]).find? (Field.named "id") = some held := by
      rw [← Option.isSome_iff_exists, List.find?_isSome]
      exact ⟨field, by simp, isId⟩
    obtain ⟨held, found⟩ := found
    have whole : message.fields.find? (Field.named "id") = some held := by
      rw [split, List.find?_append, found]
      rfl
    rw [Scan.feedAll_eq, ← shown, Scan.feed_append', reached, Scan.endMember, quiet]
    refine id.trans ?_
    rw [Scan.id_absorbed (List.nodup_append.mp distinct).1, found, idValue, whole]
    rfl

end Message

theorem blank_nil : Blank [] := by
  intro byte member
  cases member

/-- An array in an array, some levels deep. -/
def brackets (levels : Nat) : Bytes :=
  List.replicate levels 0x5B ++ List.replicate levels 0x5D

theorem json_brackets (levels : Nat) : Json .value (levels + 1) (brackets (levels + 1)) := by
  induction levels with
  | zero => exact .emptyArray blank_nil
  | succ levels induction =>
      have same : brackets (levels + 1 + 1) = 0x5B :: (brackets (levels + 1) ++ [0x5D]) := by
        rw [brackets, List.replicate_succ, List.replicate_succ' (n := levels + 1) (a := 0x5D)]
        simp [brackets]
      have padded := Json.padded blank_nil induction blank_nil
      rw [List.nil_append, List.append_nil] at padded
      rw [same]
      exact .array (.lastElement padded)

theorem padded_brackets (levels : Nat) : Json .padded (levels + 1) (brackets (levels + 1)) := by
  have padded := Json.padded blank_nil (json_brackets levels) blank_nil
  rwa [List.nil_append, List.append_nil] at padded

/-- A member with a deep value. -/
def deepField (levels : Nat) : Field where
  before := []
  key := ascii "a"
  gap := []
  raw := brackets (levels + 1)
  bound := levels + 1
  blankBefore := blank_nil
  plain := List.all_iff_forall_prop.mp (by decide)
  blankGap := blank_nil
  json := padded_brackets levels

/-- `"method":"m"`. -/
def methodField : Field where
  before := []
  key := ascii "method"
  gap := []
  raw := quoted (ascii "m")
  bound := 0
  blankBefore := blank_nil
  plain := List.all_iff_forall_prop.mp (by decide)
  blankGap := blank_nil
  json := Json.padded blank_nil (.string (.plain (by decide) (by decide) .done)) blank_nil

def deepMessage (levels : Nat) : Message where
  before := []
  fields := [deepField levels, methodField]
  inner := []
  after := []
  blankBefore := blank_nil
  blankInner := blank_nil
  blankAfter := blank_nil
  distinct := by
    show [ascii "a", ascii "method"].Nodup
    decide

namespace Scan

theorem feed_opens (count : Nat) (outside : scan.inString = false) (empty : scan.capture = none)
    (deep : 1 ≤ scan.depth) (bounded : scan.depth ≤ maxDepth) :
    scan.feed parse (List.replicate count 0x5B) =
      { scan with depth := min (scan.depth + count) maxDepth } := by
  induction count generalizing scan with
  | zero =>
      rw [Nat.add_zero, Nat.min_eq_left bounded]
      rfl
  | succ count induction =>
      have opened : scan.step parse 0x5B =
          { scan with depth := min (scan.depth + 1) maxDepth } := by
        rw [step_open_eq outside (.inr rfl), if_neg (by omega), captureByte_of_none empty]
      have further := @induction { scan with depth := min (scan.depth + 1) maxDepth } outside empty
        (Nat.le_min.mpr ⟨Nat.le_add_left 1 _, by decide⟩) (Nat.min_le_right _ _)
      rw [List.replicate_succ, feed_cons, opened, further]
      congr 1
      dsimp only
      omega

theorem feed_closes (count : Nat) (outside : scan.inString = false) (empty : scan.capture = none) :
    scan.feed parse (List.replicate count 0x5D) = { scan with depth := scan.depth - count } := by
  induction count generalizing scan with
  | zero => rfl
  | succ count induction =>
      have closed : scan.step parse 0x5D = { scan with depth := scan.depth - 1 } := by
        rw [step_close_eq outside (.inr rfl), captureByte_of_none empty, endMember_of_none empty]
        exact ite_self _
      rw [List.replicate_succ, feed_cons, closed,
        @induction { scan with depth := scan.depth - 1 } outside empty]
      congr 1
      dsimp only
      omega

end Scan

theorem text_deepMessage (levels : Nat) :
    (deepMessage levels).text = (0x7B :: quoted (ascii "a") ++ [0x3A]) ++
      (List.replicate (levels + 1) 0x5B ++ (List.replicate (levels + 1) 0x5D ++
        (0x2C :: quoted (ascii "method") ++ 0x3A :: quoted (ascii "m") ++ [0x7D]))) := by
  rw [Message.text, if_neg (by simp [deepMessage])]
  simp [deepMessage, fieldsText, Field.text, deepField, methodField, brackets]

/-- Nesting beyond what the depth counts hides the members behind it. -/
theorem deep_nesting_hides_method :
    (Scan.default.feed (fun _ => (none : Option Unit)) (deepMessage (maxDepth - 1)).text).kind
        (fun _ => none) = .request none ∧
      (deepMessage (maxDepth - 1)).kind (fun _ => (none : Option Unit)) = .notification := by
  constructor
  · have levels : maxDepth - 1 + 1 = maxDepth := by decide
    have first : (Scan.default : Scan Unit).feed (fun _ => none)
        (0x7B :: quoted (ascii "a") ++ [0x3A]) =
          { Scan.opened with member := .value, key := ascii "a" } := by decide
    have opens := @Scan.feed_opens _ (fun _ => none)
      ({ Scan.opened with member := .value, key := ascii "a" } : Scan Unit) maxDepth rfl rfl
      (by decide) (by decide)
    have closes := @Scan.feed_closes _ (fun _ => none)
      ({ Scan.opened with member := .value, key := ascii "a", depth := maxDepth } : Scan Unit)
      maxDepth rfl rfl
    have deepest : min ((Scan.opened : Scan Unit).depth + maxDepth) maxDepth = maxDepth := by decide
    dsimp only at opens closes
    rw [deepest] at opens
    rw [Nat.sub_self] at closes
    rw [text_deepMessage, levels, Scan.feed_append', first, Scan.feed_append', opens,
      Scan.feed_append', closes]
    decide
  · decide

/-- `"id":7`. -/
def idField : Field where
  before := []
  key := ascii "id"
  gap := []
  raw := ascii "7"
  bound := 0
  blankBefore := blank_nil
  plain := List.all_iff_forall_prop.mp (by decide)
  blankGap := blank_nil
  json := Json.padded blank_nil
    (.scalar (List.all_iff_forall_prop.mp (show (ascii "7").all isScalar = true by decide))
      (show ascii "7" ≠ [] by decide)) blank_nil

def requestMessage : Message where
  before := []
  fields := [idField, methodField]
  inner := []
  after := []
  blankBefore := blank_nil
  blankInner := blank_nil
  blankAfter := blank_nil
  distinct := by decide

def readSeven (raw : Bytes) : Option Nat := if raw = ascii "7" then some 7 else none

theorem scanned_request :
    (Scan.feedAll readSeven [requestMessage.text]).kind readSeven = .request (some 7) ∧
      ((Scan.feedAll readSeven [requestMessage.upTo [] idField]).endMember readSeven).id =
        some 7 := by
  obtain ⟨whole, cut⟩ := Message.scanned readSeven requestMessage (by
    intro field member
    rcases List.mem_cons.mp member with rfl | last
    · decide
    · rw [List.mem_singleton.mp last]
      decide)
  constructor
  · exact (whole _ (List.append_nil _)).1.trans (by decide)
  · refine (cut [] idField [methodField] _ rfl (by decide) (by decide) ?_ ?_).trans (by decide)
    · exact ⟨[], by simp⟩
    · refine ⟨fieldsText [methodField] ++ 0x7D :: requestMessage.after, ?_⟩
      rw [List.flatten_singleton]
      exact (requestMessage.text_eq_upTo rfl (by decide)).symm

end Crystalline.Stdio
