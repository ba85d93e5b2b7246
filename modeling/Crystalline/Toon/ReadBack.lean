import Crystalline.Toon.Lines

/-!
# Printed values can be read back

By induction over the value: what is printed of it, with lines behind that stand further out,
is printed of no other value.
-/

namespace Crystalline.Toon

open Text

variable {Number : Type} {numbers : NumberPrinting Number}

variable {items : List (Value Number)} {names : List Text} {left right : List (Value Number)}
  {value : Value Number} {fields : Fields Number}

theorem isRow_of_isTabular (table : isTabular items = some names) :
    ∀ item ∈ items, isRow names item = true := by
  unfold isTabular at table
  obtain ⟨first, -, table⟩ := Option.bind_eq_some_iff.mp table
  obtain ⟨fields, -, table⟩ := Option.bind_eq_some_iff.mp table
  split at table
  · next rows =>
      obtain rfl := Option.some.inj table
      exact fun item member => List.all_eq_true.mp rows item member
  · cases table

variable {item : Value Number}

theorem isRow_cases (row : isRow names item = true) :
    ∃ fields, item = .object fields ∧ fields.map Prod.fst = names ∧
      ∀ field ∈ fields, isScalar field.2 = true := by
  unfold isRow at row
  cases item with
  | object fields =>
      dsimp only [asObject] at row
      rw [Bool.and_eq_true, decide_eq_true_iff, List.all_eq_true] at row
      exact ⟨fields, rfl, row.1, row.2⟩
  | null => cases row
  | bool flag => cases row
  | number number => cases row
  | string text => cases row
  | array items => cases row

theorem row_inj {left right : Value Number} (leftRow : isRow names left = true)
    (rightRow : isRow names right = true)
    (same : joinCells (rowCells numbers left) = joinCells (rowCells numbers right)) :
    left = right := by
  obtain ⟨fields, rfl, named, scalars⟩ := isRow_cases leftRow
  obtain ⟨others, rfl, otherNamed, otherScalars⟩ := isRow_cases rightRow
  have cells : ∀ fields : Fields Number,
      rowCells numbers (.object fields) = (fields.map Prod.snd).map (scalarToken numbers) := by
    intro fields
    rw [rowCells, List.map_map]
    rfl
  have good : ∀ {fields : Fields Number}, (∀ field ∈ fields, isScalar field.2 = true) →
      ∀ value ∈ fields.map Prod.snd, isScalar value = true := by
    intro fields scalars value member
    obtain ⟨field, isIn, rfl⟩ := List.mem_map.mp member
    exact scalars field isIn
  rw [cells, cells] at same
  have values : fields.map Prod.snd = others.map Prod.snd :=
    (joinCells_append_inj (cell_scalarToken numbers) (good scalars) (good otherScalars)
      closed_nil closed_nil (congrArg (· ++ []) same)).1
  exact congrArg Value.object
    ((List.zip_of_prod named values).trans (List.zip_of_prod otherNamed rfl).symm)

variable {rest tail : List Text} {key : Text}

theorem rows_inj {prefixed : Text} (leftRows : ∀ item ∈ left, isRow names item = true)
    (rightRows : ∀ item ∈ right, isRow names item = true) (count : left.length = right.length)
    (same : left.map (fun item => prefixed ++ joinCells (rowCells numbers item)) ++ rest =
      right.map (fun item => prefixed ++ joinCells (rowCells numbers item)) ++ tail) :
    left = right ∧ rest = tail := by
  induction left generalizing right with
  | nil =>
      obtain rfl := List.length_eq_zero_iff.mp count.symm
      exact ⟨rfl, same⟩
  | cons item left induction =>
      cases right with
      | nil => cases count
      | cons other right =>
          obtain ⟨sameLine, sameLater⟩ := List.cons.inj same
          obtain rfl := row_inj (leftRows item List.mem_cons_self)
            (rightRows other List.mem_cons_self) (List.append_cancel_left sameLine)
          obtain ⟨rfl, sameRest⟩ := induction
            (fun item member => leftRows item (List.mem_cons_of_mem _ member))
            (fun item member => rightRows item (List.mem_cons_of_mem _ member))
            (Nat.succ.inj count) sameLater
          exact ⟨rfl, sameRest⟩

/-- An array's three forms, when it is not empty. -/
theorem array_cases (numbers : NumberPrinting Number) (indent : Nat) (some : items ≠ []) :
    ((∀ item ∈ items, isScalar item = true) ∧
      arrayTail numbers items = ':' :: ' ' :: joinCells (items.map (scalarToken numbers)) ∧
      arrayRest numbers indent items = []) ∨
    (∃ names, (∀ item ∈ items, isRow names item = true) ∧
      arrayTail numbers items = '\x7b' :: (joinCells (names.map stringToken) ++ "\x7d:".toList) ∧
      arrayRest numbers indent items =
        items.map fun item => pad (indent + 2) ++ joinCells (rowCells numbers item)) ∨
    arrayTail numbers items = [':'] ∧
      arrayRest numbers indent items = emitListItems numbers (indent + 2) items := by
  obtain ⟨first, rest, rfl⟩ := List.exists_cons_of_ne_nil some
  rw [arrayTail, arrayRest]
  split
  · next scalars => exact .inl ⟨List.all_eq_true.mp scalars, rfl, rfl⟩
  · cases table : isTabular (first :: rest) with
    | some names => exact .inr (.inl ⟨names, isRow_of_isTabular table, rfl, rfl⟩)
    | none => exact .inr (.inr ⟨rfl, rfl⟩)

/-- The lines of an item list are no other list's of that length. -/
def ItemsRead (numbers : NumberPrinting Number) (left : List (Value Number)) : Prop :=
  ∀ {right : List (Value Number)} {indent : Nat} {rest tail : List Text},
    left.length = right.length → Outside (indent + 2) rest → Outside (indent + 2) tail →
      emitListItems numbers indent left ++ rest = emitListItems numbers indent right ++ tail →
        left = right ∧ rest = tail

theorem array_read {indent : Nat} (reads : ItemsRead numbers left)
    (leftEnds : Outside (indent + 2) rest) (rightEnds : Outside (indent + 2) tail)
    (heads : bracketed left.length ++ arrayTail numbers left =
      bracketed right.length ++ arrayTail numbers right)
    (same : arrayRest numbers indent left ++ rest = arrayRest numbers indent right ++ tail) :
    left = right ∧ rest = tail := by
  obtain ⟨count, tails⟩ := bracketed_append_inj heads
  by_cases empty : left = []
  · subst empty
    obtain rfl := List.length_eq_zero_iff.mp count.symm
    exact ⟨rfl, same⟩
  · have some : right ≠ [] := by
      rintro rfl
      exact empty (List.length_eq_zero_iff.mp count)
    rcases array_cases numbers indent empty with
      ⟨leftScalars, leftTail, leftRest⟩ | ⟨leftNames, leftRows, leftTail, leftRest⟩ |
        ⟨leftTail, leftRest⟩ <;>
    rcases array_cases numbers indent some with
      ⟨rightScalars, rightTail, rightRest⟩ | ⟨rightNames, rightRows, rightTail, rightRest⟩ |
        ⟨rightTail, rightRest⟩ <;>
    rw [leftTail, rightTail] at tails <;> rw [leftRest, rightRest] at same
    -- both of scalars
    · have cells := (List.cons.inj (List.cons.inj tails).2).2
      exact ⟨(joinCells_append_inj (cell_scalarToken numbers) leftScalars rightScalars closed_nil
        closed_nil (congrArg (· ++ []) cells)).1, same⟩
    · exact absurd (List.cons.inj tails).1 (by decide)
    · cases (List.cons.inj tails).2
    · exact absurd (List.cons.inj tails).1 (by decide)
    -- both tables
    · have names := (joinCells_append_inj cell_stringToken (fun _ _ => trivial)
        (fun _ _ => trivial) closed_brace closed_brace (List.cons.inj tails).2).1
      subst names
      exact rows_inj leftRows rightRows count same
    · exact absurd (List.cons.inj tails).1 (by decide)
    · cases (List.cons.inj tails).2
    · exact absurd (List.cons.inj tails).1 (by decide)
    -- both lists
    · exact reads count (leftEnds.mono (by omega)) (rightEnds.mono (by omega)) same

theorem entryHead_starts (numbers : NumberPrinting Number) (value : Value Number) :
    ∃ char rest, entryHead numbers value = char :: rest ∧ char ∈ structural := by
  cases value with
  | array items => exact ⟨'[', _, rfl, by decide⟩
  | object fields => exact ⟨':', _, rfl, by decide⟩
  | null => exact ⟨':', _, rfl, by decide⟩
  | bool flag => exact ⟨':', _, rfl, by decide⟩
  | number number => exact ⟨':', _, rfl, by decide⟩
  | string text => exact ⟨':', _, rfl, by decide⟩

theorem delimited_entryHead (numbers : NumberPrinting Number) (value : Value Number) :
    Delimited (entryHead numbers value) := by
  obtain ⟨char, rest, shape, member⟩ := entryHead_starts numbers value
  rw [shape]
  exact delimited_cons member rest

theorem value_cases (value : Value Number) :
    (∃ fields, value = .object fields) ∨ (∃ items, value = .array items) ∨
      isScalar value = true := by
  cases value with
  | object fields => exact .inl ⟨fields, rfl⟩
  | array items => exact .inr (.inl ⟨items, rfl⟩)
  | null => exact .inr (.inr rfl)
  | bool flag => exact .inr (.inr rfl)
  | number number => exact .inr (.inr rfl)
  | string text => exact .inr (.inr rfl)

theorem entry_of_scalar (numbers : NumberPrinting Number) (indent : Nat)
    (scalar : isScalar value = true) :
    entryHead numbers value = ':' :: ' ' :: scalarToken numbers value ∧
      entryRest numbers indent value = [] ∧
        itemHead numbers value = ' ' :: scalarToken numbers value ∧
          itemRest numbers indent value = [] := by
  cases value with
  | null => exact ⟨rfl, rfl, rfl, rfl⟩
  | bool flag => exact ⟨rfl, rfl, rfl, rfl⟩
  | number number => exact ⟨rfl, rfl, rfl, rfl⟩
  | string text => exact ⟨rfl, rfl, rfl, rfl⟩
  | array items => cases scalar
  | object fields => cases scalar

/-- The lines of an object are no other object's. -/
def FieldsRead (numbers : NumberPrinting Number) (left : Fields Number) : Prop :=
  ∀ {right : Fields Number} {indent : Nat} {rest tail : List Text},
    Outside indent rest → Outside indent tail →
      emitObject numbers indent left ++ rest = emitObject numbers indent right ++ tail →
        left = right ∧ rest = tail

/-- An entry's lines are no other entry's under that key. -/
def ValueRead (numbers : NumberPrinting Number) (left : Value Number) : Prop :=
  ∀ {right : Value Number} {indent : Nat} {rest tail : List Text},
    Outside (indent + 2) rest → Outside (indent + 2) tail →
      entryHead numbers left = entryHead numbers right →
        entryRest numbers indent left ++ rest = entryRest numbers indent right ++ tail →
          left = right ∧ rest = tail

/-- An item's lines are no other item's. -/
def ItemRead (numbers : NumberPrinting Number) (left : Value Number) : Prop :=
  ∀ {right : Value Number} {indent : Nat} {rest tail : List Text},
    Outside (indent + 2) rest → Outside (indent + 2) tail →
      itemHead numbers left = itemHead numbers right →
        itemRest numbers indent left ++ rest = itemRest numbers indent right ++ tail →
          left = right ∧ rest = tail

theorem scalar_read {left right : Value Number} (leftScalar : isScalar left = true)
    (rightScalar : isScalar right = true)
    (same : scalarToken numbers left = scalarToken numbers right) : left = right :=
  (scalarToken_append_inj leftScalar rightScalar delimited_nil delimited_nil
    (congrArg (· ++ []) same)).1

theorem valueRead_object (reads : FieldsRead numbers fields) :
    ValueRead numbers (.object fields) := by
  intro right indent rest tail leftEnds rightEnds heads same
  rcases value_cases right with ⟨others, rfl⟩ | ⟨items, rfl⟩ | scalar
  · obtain ⟨rfl, sameRest⟩ := reads leftEnds rightEnds same
    exact ⟨rfl, sameRest⟩
  · exact absurd (List.cons.inj heads).1 (by decide)
  · rw [(entry_of_scalar numbers indent scalar).1] at heads
    cases (List.cons.inj heads).2

theorem valueRead_array (reads : ItemsRead numbers items) : ValueRead numbers (.array items) := by
  intro right indent rest tail leftEnds rightEnds heads same
  rcases value_cases right with ⟨fields, rfl⟩ | ⟨others, rfl⟩ | scalar
  · exact absurd (List.cons.inj heads).1 (by decide)
  · obtain ⟨rfl, sameRest⟩ := array_read reads leftEnds rightEnds heads same
    exact ⟨rfl, sameRest⟩
  · rw [(entry_of_scalar numbers indent scalar).1] at heads
    exact absurd (List.cons.inj heads).1 (by decide)

theorem valueRead_scalar {left : Value Number} (leftScalar : isScalar left = true) :
    ValueRead numbers left := by
  intro right indent rest tail leftEnds rightEnds heads same
  obtain ⟨leftHead, leftRest, -⟩ := entry_of_scalar numbers indent leftScalar
  rw [leftHead] at heads
  rcases value_cases right with ⟨fields, rfl⟩ | ⟨items, rfl⟩ | scalar
  · cases (List.cons.inj heads).2
  · exact absurd (List.cons.inj heads).1 (by decide)
  · obtain ⟨rightHead, rightRest, -⟩ := entry_of_scalar numbers indent scalar
    rw [rightHead] at heads
    rw [leftRest, rightRest] at same
    exact ⟨scalar_read leftScalar scalar (List.cons.inj (List.cons.inj heads).2).2, same⟩

/-- The first line of an item that is an object with entries is no line of an
array or a scalar. -/
theorem itemHead_object_ne {value other : Value Number}
    (notObject : ∀ fields, other ≠ .object fields) :
    itemHead numbers (.object ((key, value) :: fields)) ≠ itemHead numbers other := by
  intro heads
  rcases value_cases other with ⟨fields, rfl⟩ | ⟨items, rfl⟩ | scalar
  · exact notObject fields rfl
  · obtain ⟨char, token, shape, -, notBracket⟩ := stringToken_starts key
    rw [itemHead, itemHead, shape] at heads
    exact notBracket (List.cons.inj (List.cons.inj heads).2).1
  · rw [itemHead, (entry_of_scalar numbers 0 scalar).2.2.1] at heads
    have tokens : scalarToken numbers (.string key) ++ entryHead numbers value =
        scalarToken numbers other ++ [] := by
      rw [List.append_nil]
      exact (List.cons.inj heads).2
    obtain ⟨-, none⟩ := scalarToken_append_inj rfl scalar (delimited_entryHead numbers value)
      delimited_nil tokens
    obtain ⟨char, rest, shape, -⟩ := entryHead_starts numbers value
    rw [shape] at none
    cases none

theorem itemRead_object (valueReads : ValueRead numbers value) (reads : FieldsRead numbers fields) :
    ItemRead numbers (.object ((key, value) :: fields)) := by
  intro right indent rest tail leftEnds rightEnds heads same
  by_cases isObject : ∃ others, right = .object others
  · obtain ⟨others, rfl⟩ := isObject
    cases others with
    | nil => cases heads
    | cons field others =>
        obtain ⟨otherKey, other⟩ := field
        obtain ⟨rfl, sameHead⟩ := stringToken_append_inj (delimited_entryHead numbers value)
          (delimited_entryHead numbers other) (List.cons.inj heads).2
        rw [itemRest, itemRest, List.append_assoc, List.append_assoc] at same
        obtain ⟨rfl, sameLater⟩ := valueReads
          (outside_emitObject (by omega) fields leftEnds)
          (outside_emitObject (by omega) others rightEnds) sameHead same
        obtain ⟨rfl, sameRest⟩ := reads leftEnds rightEnds sameLater
        exact ⟨rfl, sameRest⟩
  · exact absurd heads (itemHead_object_ne fun fields same => isObject ⟨fields, same⟩)

theorem itemRead_empty : ItemRead numbers (.object []) := by
  intro right indent rest tail leftEnds rightEnds heads same
  rcases value_cases right with ⟨others, rfl⟩ | ⟨items, rfl⟩ | scalar
  · cases others with
    | nil => exact ⟨rfl, same⟩
    | cons field others => cases heads
  · cases heads
  · rw [(entry_of_scalar numbers 0 scalar).2.2.1] at heads
    cases heads

theorem itemHead_array_ne {other : Value Number} (scalar : isScalar other = true) :
    itemHead numbers (.array items) ≠ itemHead numbers other := by
  intro heads
  rw [(entry_of_scalar numbers 0 scalar).2.2.1] at heads
  obtain ⟨char, token, shape, starts⟩ := token_starts numbers scalar
  rw [shape] at heads
  have isBracket : '[' = char := (List.cons.inj (List.cons.inj heads).2).1
  subst isBracket
  exact absurd starts (by decide)

theorem itemRead_array (reads : ItemsRead numbers items) : ItemRead numbers (.array items) := by
  intro right indent rest tail leftEnds rightEnds heads same
  rcases value_cases right with ⟨others, rfl⟩ | ⟨others, rfl⟩ | scalar
  · cases others with
    | nil => cases heads
    | cons field others =>
        exact absurd heads.symm (itemHead_object_ne fun fields same => by cases same)
  · obtain ⟨rfl, sameRest⟩ := array_read reads (leftEnds.mono (by omega))
      (rightEnds.mono (by omega)) (List.cons.inj heads).2 same
    exact ⟨rfl, sameRest⟩
  · exact absurd heads (itemHead_array_ne scalar)

theorem itemRead_scalar {left : Value Number} (leftScalar : isScalar left = true) :
    ItemRead numbers left := by
  intro right indent rest tail leftEnds rightEnds heads same
  obtain ⟨-, -, leftHead, leftRest⟩ := entry_of_scalar numbers indent leftScalar
  rcases value_cases right with ⟨others, rfl⟩ | ⟨items, rfl⟩ | scalar
  · cases others with
    | nil =>
        rw [leftHead] at heads
        cases heads
    | cons field others =>
        refine absurd heads.symm (itemHead_object_ne fun fields same => ?_)
        subst same
        cases leftScalar
  · exact absurd heads.symm (itemHead_array_ne leftScalar)
  · obtain ⟨-, -, rightHead, rightRest⟩ := entry_of_scalar numbers indent scalar
    rw [leftHead, rightHead] at heads
    rw [leftRest, rightRest] at same
    exact ⟨scalar_read leftScalar scalar (List.cons.inj heads).2, same⟩

theorem fieldsRead_nil : FieldsRead numbers [] := by
  intro right indent rest tail leftEnds rightEnds same
  cases right with
  | nil => exact ⟨rfl, same⟩
  | cons field right =>
      rw [emitObject, List.nil_append] at same
      rw [same, emitObject, emitEntry_eq, List.append_assoc (pad indent)] at leftEnds
      exact absurd (List.prefix_append _ _) (leftEnds _ rfl)

theorem fieldsRead_cons (valueReads : ValueRead numbers value) (reads : FieldsRead numbers fields) :
    FieldsRead numbers ((key, value) :: fields) := by
  intro right indent rest tail leftEnds rightEnds same
  cases right with
  | nil =>
      rw [emitObject, emitObject, List.nil_append] at same
      rw [← same, emitEntry_eq, List.append_assoc (pad indent)] at rightEnds
      exact absurd (List.prefix_append _ _) (rightEnds _ rfl)
  | cons field right =>
      obtain ⟨otherKey, other⟩ := field
      rw [emitObject, emitObject, emitEntry_eq, emitEntry_eq] at same
      simp only [List.append_assoc, List.cons_append, List.cons.injEq] at same
      obtain ⟨sameLine, sameLater⟩ := same
      obtain ⟨rfl, sameHead⟩ := stringToken_append_inj (delimited_entryHead numbers value)
        (delimited_entryHead numbers other) (List.append_cancel_left sameLine)
      obtain ⟨rfl, sameFields⟩ := valueReads
        (outside_emitObject (by omega) fields leftEnds)
        (outside_emitObject (by omega) right rightEnds) sameHead sameLater
      obtain ⟨rfl, sameRest⟩ := reads leftEnds rightEnds sameFields
      exact ⟨rfl, sameRest⟩

theorem itemsRead_nil : ItemsRead numbers [] := by
  intro right indent rest tail count leftEnds rightEnds same
  obtain rfl := List.length_eq_zero_iff.mp count.symm
  exact ⟨rfl, same⟩

theorem itemsRead_cons (itemReads : ItemRead numbers item) (reads : ItemsRead numbers items) :
    ItemsRead numbers (item :: items) := by
  intro right indent rest tail count leftEnds rightEnds same
  cases right with
  | nil => cases count
  | cons other right =>
      rw [emitListItems, emitListItems, emitListItem_eq, emitListItem_eq, List.append_assoc,
        List.append_assoc] at same
      obtain ⟨sameLine, sameLater⟩ := List.cons.inj same
      obtain ⟨rfl, sameItems⟩ := itemReads
        (outside_emitListItems (by omega) items leftEnds)
        (outside_emitListItems (by omega) right rightEnds)
        (List.cons.inj (List.append_cancel_left sameLine)).2 sameLater
      obtain ⟨rfl, sameRest⟩ := reads (Nat.succ.inj count) leftEnds rightEnds sameItems
      exact ⟨rfl, sameRest⟩

mutual

theorem valueRead (numbers : NumberPrinting Number) : ∀ value, ValueRead numbers value
  | .object fields => valueRead_object (fieldsRead numbers fields)
  | .array items => valueRead_array (itemsRead numbers items)
  | .null => valueRead_scalar rfl
  | .bool _ => valueRead_scalar rfl
  | .number _ => valueRead_scalar rfl
  | .string _ => valueRead_scalar rfl

theorem fieldsRead (numbers : NumberPrinting Number) : ∀ fields, FieldsRead numbers fields
  | [] => fieldsRead_nil
  | (_, value) :: fields => fieldsRead_cons (valueRead numbers value) (fieldsRead numbers fields)

theorem itemsRead (numbers : NumberPrinting Number) : ∀ items, ItemsRead numbers items
  | [] => itemsRead_nil
  | item :: items => itemsRead_cons (itemRead numbers item) (itemsRead numbers items)

theorem itemRead (numbers : NumberPrinting Number) : ∀ item, ItemRead numbers item
  | .object [] => itemRead_empty
  | .object ((_, value) :: fields) =>
      itemRead_object (valueRead numbers value) (fieldsRead numbers fields)
  | .array items => itemRead_array (itemsRead numbers items)
  | .null => itemRead_scalar rfl
  | .bool _ => itemRead_scalar rfl
  | .number _ => itemRead_scalar rfl
  | .string _ => itemRead_scalar rfl

end

end Crystalline.Toon
