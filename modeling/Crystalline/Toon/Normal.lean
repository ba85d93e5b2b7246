import Crystalline.Toon.ReadBack
import Mathlib.Data.List.Dedup

/-!
# What the pass before leaves

Normalizing twice is normalizing once, since a filled row has all the keys and a
joined cell is a string.  Rows of scalars and lists of comma-free strings come out
as rows of scalars, which print as a table.
-/

namespace Crystalline.Toon

open Text

section

variable {Number : Type} {numbers : NumberPrinting Number}

/-- No line feed inside. -/
def IsLine (text : Text) : Prop := '\n' ∉ text

theorem isLine_append {left right : Text} : IsLine (left ++ right) ↔ IsLine left ∧ IsLine right := by
  rw [IsLine, List.mem_append, not_or]
  rfl

theorem isLine_pad (indent : Nat) : IsLine (pad indent) := by
  intro member
  exact absurd (List.eq_of_mem_replicate member) (by decide)

theorem Plain.isLine {text : Text} (plain : Plain text) : IsLine text :=
  fun member => plain '\n' member (by decide)

theorem isLine_escape (text : Text) : IsLine (escape text) := by
  intro member
  obtain ⟨char, -, inside⟩ := List.mem_flatMap.mp member
  unfold escapeChar at inside
  split at inside
  · exact absurd inside (by decide)
  · exact absurd inside (by decide)
  · exact absurd inside (by decide)
  · exact absurd inside (by decide)
  · exact absurd inside (by decide)
  · next notFeed _ _ => exact notFeed (List.mem_singleton.mp inside).symm

theorem isLine_scalarToken (numbers : NumberPrinting Number) (value : Value Number) :
    IsLine (scalarToken numbers value) := by
  by_cases scalar : isScalar value = true
  · cases bare : isBare value with
    | true => exact (bare_token numbers bare).1.isLine
    | false =>
        obtain ⟨text, -, shape⟩ := quoted_token numbers scalar bare
        rw [shape, ← List.singleton_append, isLine_append, isLine_append]
        exact ⟨by unfold IsLine; decide, isLine_escape text, by unfold IsLine; decide⟩
  · cases value with
    | array items => exact List.not_mem_nil
    | object fields => exact List.not_mem_nil
    | null => exact absurd rfl scalar
    | bool flag => exact absurd rfl scalar
    | number number => exact absurd rfl scalar
    | string text => exact absurd rfl scalar

theorem isLine_stringToken (text : Text) : IsLine (stringToken text) :=
  isLine_scalarToken noNumbers (.string text)

theorem isLine_joinCells {cells : List Text} (lines : ∀ cell ∈ cells, IsLine cell) :
    IsLine (joinCells cells) := by
  induction cells with
  | nil => exact List.not_mem_nil
  | cons cell cells induction =>
      have later := induction fun cell member => lines cell (List.mem_cons_of_mem _ member)
      have first := lines cell List.mem_cons_self
      cases cells with
      | nil => simpa [joinCells, List.intercalate] using first
      | cons next cells =>
          rw [joinCells, List.intercalate_cons_of_ne_nil (by simp), ← joinCells, isLine_append,
            isLine_append]
          exact ⟨⟨first, by unfold IsLine; decide⟩, later⟩

theorem isLine_bracketed (count : Nat) : IsLine (bracketed count) := by
  intro member
  simp only [bracketed, List.cons_append, List.mem_cons, List.mem_append] at member
  rcases member with same | digit | same
  · exact absurd same (by decide)
  · have isDigit := Nat.isDigit_of_mem_toDigits (by decide) (by decide) digit
    exact absurd isDigit (by decide)
  · exact absurd same (by decide)

theorem isLine_rows (indent : Nat) (items : List (Value Number)) :
    ∀ line ∈ items.map fun item => pad indent ++ joinCells (rowCells numbers item), IsLine line := by
  intro line member
  obtain ⟨item, -, rfl⟩ := List.mem_map.mp member
  rw [isLine_append]
  refine ⟨isLine_pad indent, isLine_joinCells fun cell isCell => ?_⟩
  obtain ⟨field, -, rfl⟩ := List.mem_map.mp isCell
  exact isLine_scalarToken numbers field.2

theorem isLine_arrayTail (items : List (Value Number)) : IsLine (arrayTail numbers items) := by
  by_cases empty : items = []
  · subst empty
    rw [arrayTail]
    unfold IsLine
    decide
  · rcases array_cases numbers 0 empty with ⟨-, shape, -⟩ | ⟨names, -, shape, -⟩ | ⟨shape, -⟩
    · rw [shape]
      have cells : IsLine (joinCells (items.map (scalarToken numbers))) := by
        refine isLine_joinCells fun cell member => ?_
        obtain ⟨item, -, rfl⟩ := List.mem_map.mp member
        exact isLine_scalarToken numbers item
      exact isLine_append.mpr ⟨(by unfold IsLine; decide : IsLine ": ".toList), cells⟩
    · rw [shape]
      have cells : IsLine (joinCells (names.map stringToken)) := by
        refine isLine_joinCells fun cell member => ?_
        obtain ⟨name, -, rfl⟩ := List.mem_map.mp member
        exact isLine_stringToken name
      have closing : IsLine "\x7d:".toList := by
        unfold IsLine
        decide
      exact isLine_append.mpr ⟨(by unfold IsLine; decide : IsLine ['\x7b']),
        isLine_append.mpr ⟨cells, closing⟩⟩
    · rw [shape]
      unfold IsLine
      decide

theorem isLine_entryHead (value : Value Number) : IsLine (entryHead numbers value) := by
  rcases value_cases value with ⟨fields, rfl⟩ | ⟨items, rfl⟩ | scalar
  · rw [entryHead]
    unfold IsLine
    decide
  · rw [entryHead, isLine_append]
    exact ⟨isLine_bracketed _, isLine_arrayTail items⟩
  · rw [(entry_of_scalar numbers 0 scalar).1]
    exact isLine_append.mpr ⟨(by unfold IsLine; decide : IsLine ": ".toList),
      isLine_scalarToken numbers value⟩

theorem isLine_itemHead (item : Value Number) : IsLine (itemHead numbers item) := by
  have blank : ∀ {text : Text}, IsLine text → IsLine (' ' :: text) := fun line =>
    isLine_append.mpr ⟨(by unfold IsLine; decide : IsLine [' ']), line⟩
  rcases value_cases item with ⟨fields, rfl⟩ | ⟨items, rfl⟩ | scalar
  · cases fields with
    | nil => exact List.not_mem_nil
    | cons field fields =>
        exact blank (isLine_append.mpr ⟨isLine_stringToken _, isLine_entryHead _⟩)
  · exact blank (isLine_append.mpr ⟨isLine_bracketed _, isLine_arrayTail items⟩)
  · rw [(entry_of_scalar numbers 0 scalar).2.2.1]
    exact blank (isLine_scalarToken numbers item)

section Below

variable (indent : Nat) {key : Text} {value item : Value Number} {fields : Fields Number}
  {items : List (Value Number)}

theorem isLine_arrayRest
    (lists : ∀ indent, ∀ line ∈ emitListItems numbers indent items, IsLine line) :
    ∀ line ∈ arrayRest numbers indent items, IsLine line := by
  by_cases empty : items = []
  · subst empty
    exact fun _ member => absurd member List.not_mem_nil
  · rcases array_cases numbers indent empty with ⟨-, -, shape⟩ | ⟨names, -, -, shape⟩ | ⟨-, shape⟩
    · rw [shape]
      exact fun _ member => absurd member List.not_mem_nil
    · rw [shape]
      exact isLine_rows (indent + 2) items
    · rw [shape]
      exact lists (indent + 2)

theorem isLine_emitObject_cons
    (values : ∀ indent, ∀ line ∈ entryRest numbers indent value, IsLine line)
    (later : ∀ indent, ∀ line ∈ emitObject numbers indent fields, IsLine line) :
    ∀ line ∈ emitObject numbers indent ((key, value) :: fields), IsLine line := by
  intro line member
  rw [emitObject, emitEntry_eq] at member
  rcases List.mem_append.mp member with inEntry | inLater
  · rcases List.mem_cons.mp inEntry with rfl | below
    · exact isLine_append.mpr ⟨isLine_append.mpr ⟨isLine_pad indent, isLine_stringToken key⟩,
        isLine_entryHead value⟩
    · exact values indent line below
  · exact later indent line inLater

theorem isLine_emitListItems_cons
    (rests : ∀ indent, ∀ line ∈ itemRest numbers indent item, IsLine line)
    (later : ∀ indent, ∀ line ∈ emitListItems numbers indent items, IsLine line) :
    ∀ line ∈ emitListItems numbers indent (item :: items), IsLine line := by
  intro line member
  rw [emitListItems, emitListItem_eq] at member
  rcases List.mem_append.mp member with inItem | inLater
  · rcases List.mem_cons.mp inItem with rfl | below
    · have hyphen : IsLine ['-'] := by
        unfold IsLine
        decide
      exact isLine_append.mpr ⟨isLine_pad indent, isLine_append.mpr ⟨hyphen, isLine_itemHead item⟩⟩
    · exact rests indent line below
  · exact later indent line inLater

theorem isLine_itemRest_object
    (values : ∀ indent, ∀ line ∈ entryRest numbers indent value, IsLine line)
    (later : ∀ indent, ∀ line ∈ emitObject numbers indent fields, IsLine line) :
    ∀ line ∈ itemRest numbers indent (.object ((key, value) :: fields)), IsLine line := by
  intro line member
  rcases List.mem_append.mp member with inEntry | inLater
  · exact values (indent + 2) line inEntry
  · exact later (indent + 2) line inLater

end Below

mutual

theorem isLine_entryRest (numbers : NumberPrinting Number) :
    ∀ (value : Value Number) (indent : Nat), ∀ line ∈ entryRest numbers indent value, IsLine line
  | .object fields, indent => isLine_emitObject numbers fields (indent + 2)
  | .array items, indent => isLine_arrayRest indent (isLine_emitListItems numbers items)
  | .null, _ => fun _ member => absurd member List.not_mem_nil
  | .bool _, _ => fun _ member => absurd member List.not_mem_nil
  | .number _, _ => fun _ member => absurd member List.not_mem_nil
  | .string _, _ => fun _ member => absurd member List.not_mem_nil

theorem isLine_emitObject (numbers : NumberPrinting Number) :
    ∀ (fields : Fields Number) (indent : Nat), ∀ line ∈ emitObject numbers indent fields, IsLine line
  | [], _ => fun _ member => absurd member List.not_mem_nil
  | (_, value) :: fields, indent =>
      isLine_emitObject_cons indent (isLine_entryRest numbers value)
        (isLine_emitObject numbers fields)

theorem isLine_emitListItems (numbers : NumberPrinting Number) :
    ∀ (items : List (Value Number)) (indent : Nat),
      ∀ line ∈ emitListItems numbers indent items, IsLine line
  | [], _ => fun _ member => absurd member List.not_mem_nil
  | item :: items, indent =>
      isLine_emitListItems_cons indent (isLine_itemRest numbers item)
        (isLine_emitListItems numbers items)

theorem isLine_itemRest (numbers : NumberPrinting Number) :
    ∀ (item : Value Number) (indent : Nat), ∀ line ∈ itemRest numbers indent item, IsLine line
  | .object [], _ => fun _ member => absurd member List.not_mem_nil
  | .object ((_, value) :: fields), indent => isLine_itemRest_object indent
      (isLine_entryRest numbers value) (isLine_emitObject numbers fields)
  | .array items, indent => isLine_arrayRest (indent + 2) (isLine_emitListItems numbers items)
  | .null, _ => fun _ member => absurd member List.not_mem_nil
  | .bool _, _ => fun _ member => absurd member List.not_mem_nil
  | .number _, _ => fun _ member => absurd member List.not_mem_nil
  | .string _, _ => fun _ member => absurd member List.not_mem_nil

end

theorem joinLines_inj {left right : List Text} (leftLines : ∀ line ∈ left, IsLine line)
    (rightLines : ∀ line ∈ right, IsLine line) (leftFirst : left.head? ≠ some [])
    (rightFirst : right.head? ≠ some []) (same : joinLines left = joinLines right) :
    left = right := by
  have cut : ∀ {lines : List Text}, lines ≠ [] → (∀ line ∈ lines, IsLine line) →
      (joinLines lines).splitOn '\n' = lines := fun notEmpty areLines =>
    List.splitOn_intercalate '\n' areLines notEmpty
  have nothing : ∀ {lines : List Text}, (∀ line ∈ lines, IsLine line) → lines.head? ≠ some [] →
      joinLines lines = [] → lines = [] := by
    intro lines areLines first empty
    by_contra notEmpty
    have whole := cut notEmpty areLines
    rw [empty] at whole
    exact first (by rw [← whole]; rfl)
  by_cases leftEmpty : left = []
  · subst leftEmpty
    exact (nothing rightLines rightFirst same.symm).symm
  · by_cases rightEmpty : right = []
    · subst rightEmpty
      exact absurd (nothing leftLines leftFirst same) leftEmpty
    · rw [← cut leftEmpty leftLines, same, cut rightEmpty rightLines]

end

variable {Number : Type} {numbers : NumberPrinting Number} {value : Value Number}
  {rows : List (Value Number)}

theorem joinStringArray_joinStringArray (value : Value Number) :
    joinStringArray (joinStringArray value) = joinStringArray value := by
  cases value with
  | array items =>
      rw [joinStringArray]
      cases joins : items.mapM commaFree with
      | some texts => rfl
      | none =>
          dsimp only
          rw [joinStringArray, joins]
  | null => rfl
  | bool flag => rfl
  | number number => rfl
  | string text => rfl
  | object fields => rfl

theorem normalize_joinStringArray (settled : normalize value = value) :
    normalize (joinStringArray value) = joinStringArray value := by
  cases value with
  | array items =>
      rw [joinStringArray]
      cases items.mapM commaFree with
      | some texts => rfl
      | none => exact settled
  | null => rfl
  | bool flag => rfl
  | number number => rfl
  | string text => rfl
  | object fields => exact settled

/-- The entries of a row. -/
abbrev rowFields (row : Value Number) : Fields Number := (asObject row).getD []

theorem mem_rowKeys {key : Text} :
    key ∈ rowKeys rows ↔ ∃ row ∈ rows, key ∈ (rowFields row).map Prod.fst := by
  rw [rowKeys, List.mem_insertionSort, List.mem_dedup, List.mem_flatMap]

theorem nodup_rowKeys (rows : List (Value Number)) : (rowKeys rows).Nodup :=
  (List.perm_insertionSort _ _).nodup_iff.mpr (List.nodup_dedup _)

theorem sorted_rowKeys (rows : List (Value Number)) : (rowKeys rows).Pairwise (· ≤ ·) :=
  List.pairwise_insertionSort _ _

theorem rowKeys_congr {others : List (Value Number)}
    (same : ∀ key, key ∈ rowKeys rows ↔ key ∈ rowKeys others) : rowKeys rows = rowKeys others := by
  have permuted : (rowKeys rows).Perm (rowKeys others) :=
    (List.perm_ext_iff_of_nodup (nodup_rowKeys rows) (nodup_rowKeys others)).mpr same
  exact permuted.eq_of_pairwise (fun _ _ _ _ => le_antisymm) (sorted_rowKeys rows)
    (sorted_rowKeys others)

variable {keys : List Text} {items : List (Value Number)} {row : Value Number}
  {fields : Fields Number} {names : List Text}

theorem fillRow_object (object : isObject row = true) :
    fillRow keys row = .object (keys.map fun key =>
      (key, joinStringArray (((rowFields row).lookup key).getD .null))) := by
  cases row with
  | object fields => rfl
  | null => cases object
  | bool flag => cases object
  | number number => cases object
  | string text => cases object
  | array items => cases object

theorem rowKeys_fillRows (some : rows ≠ []) (objects : ∀ row ∈ rows, isObject row = true) :
    rowKeys (fillRows rows) = rowKeys rows := by
  refine rowKeys_congr fun key => ?_
  have filled : ∀ row ∈ rows, (rowFields (fillRow (rowKeys rows) row)).map Prod.fst = rowKeys rows := by
    intro row member
    rw [fillRow_object (objects row member), rowFields, asObject, Option.getD_some, List.map_map]
    exact List.map_id _
  rw [mem_rowKeys]
  constructor
  · rintro ⟨row, member, isKey⟩
    obtain ⟨source, isIn, rfl⟩ := List.mem_map.mp member
    rwa [filled source isIn] at isKey
  · intro isKey
    obtain ⟨first, rest, rfl⟩ := List.exists_cons_of_ne_nil some
    refine ⟨_, List.mem_map_of_mem List.mem_cons_self, ?_⟩
    rwa [filled first List.mem_cons_self]

theorem lookup_keyed {key : Text} (cell : Text → Value Number) (member : key ∈ keys) :
    (keys.map fun key => (key, cell key)).lookup key = some (cell key) := by
  induction keys with
  | nil => cases member
  | cons first keys induction =>
      rw [List.map_cons, List.lookup_cons]
      by_cases here : key = first
      · subst here
        simp
      · rw [beq_eq_false_iff_ne.mpr here]
        exact induction ((List.mem_cons.mp member).resolve_left here)

theorem fillRow_fillRow (object : isObject row = true) :
    fillRow keys (fillRow keys row) = fillRow keys row := by
  rw [fillRow_object object, fillRow]
  congr 1
  refine List.map_congr_left fun key member => ?_
  rw [lookup_keyed _ member, Option.getD_some, joinStringArray_joinStringArray]

theorem fillRows_fillRows (some : rows ≠ []) (objects : ∀ row ∈ rows, isObject row = true) :
    fillRows (fillRows rows) = fillRows rows := by
  rw [fillRows, rowKeys_fillRows some objects]
  unfold fillRows
  rw [List.map_map]
  exact List.map_congr_left fun row member => fillRow_fillRow (objects row member)

theorem isObject_fillRows (objects : ∀ row ∈ rows, isObject row = true) :
    ∀ row ∈ fillRows rows, isObject row = true := by
  intro row member
  obtain ⟨source, isIn, rfl⟩ := List.mem_map.mp member
  rw [fillRow_object (objects source isIn)]
  rfl

theorem normalizeItems_eq_map (items : List (Value Number)) :
    normalizeItems items = items.map normalize := by
  induction items with
  | nil => rfl
  | cons item items induction => rw [normalizeItems, induction, List.map_cons]

theorem normalizeFields_eq_map (fields : Fields Number) :
    normalizeFields fields = fields.map fun field => (field.1, normalize field.2) := by
  induction fields with
  | nil => rfl
  | cons field fields induction =>
      obtain ⟨key, value⟩ := field
      rw [normalizeFields, induction, List.map_cons]

theorem settled_items : normalizeItems items = items ↔ ∀ item ∈ items, normalize item = item := by
  rw [normalizeItems_eq_map]
  constructor
  · intro same item member
    exact (List.map_inj_left.mp (same.trans (List.map_id items).symm)) item member
  · intro each
    exact (List.map_congr_left each).trans (List.map_id items)

theorem settled_fields :
    normalizeFields fields = fields ↔ ∀ field ∈ fields, normalize field.2 = field.2 := by
  rw [normalizeFields_eq_map]
  constructor
  · intro same field member
    have here := (List.map_inj_left.mp (same.trans (List.map_id fields).symm)) field member
    exact congrArg Prod.snd here
  · intro each
    refine (List.map_congr_left fun field member => ?_).trans (List.map_id fields)
    rw [each field member]
    rfl

/-- Filled rows of settled rows are settled. -/
theorem settled_fillRows (objects : ∀ row ∈ rows, isObject row = true)
    (settled : ∀ row ∈ rows, normalize row = row) :
    ∀ row ∈ fillRows rows, normalize row = row := by
  intro row member
  obtain ⟨source, isIn, rfl⟩ := List.mem_map.mp member
  rw [fillRow_object (objects source isIn), normalize]
  refine congrArg Value.object (settled_fields.mpr fun field inRow => ?_)
  obtain ⟨key, -, rfl⟩ := List.mem_map.mp inRow
  refine normalize_joinStringArray ?_
  cases found : (rowFields source).lookup key with
  | none => rfl
  | some value =>
      have whole := settled source isIn
      have isSource : source = .object (rowFields source) := by
        have object := objects source isIn
        cases source with
        | object fields => rfl
        | null => cases object
        | bool flag => cases object
        | number number => cases object
        | string text => cases object
        | array items => cases object
      rw [isSource, normalize] at whole
      have fields := settled_fields.mp (Value.object.inj whole)
      obtain ⟨front, back, shape, -⟩ := List.lookup_eq_some_iff.mp found
      exact fields (key, value) (by rw [shape]; simp)

theorem normalize_array (items : List (Value Number)) :
    normalize (.array items) =
      if !(normalizeItems items).isEmpty && (normalizeItems items).all isObject then
        .array (fillRows (normalizeItems items))
      else .array (normalizeItems items) := by
  rw [normalize]

theorem settled_array (settled : ∀ item ∈ normalizeItems items, normalize item = item) :
    normalize (normalize (.array items)) = normalize (.array items) := by
  rw [normalize_array]
  split
  · next table =>
      rw [Bool.and_eq_true, Bool.not_eq_true', List.isEmpty_eq_false_iff] at table
      obtain ⟨some, objects⟩ := table
      have each := List.all_eq_true.mp objects
      have filled := settled_items.mpr (settled_fillRows each settled)
      have filledSome : fillRows (normalizeItems items) ≠ [] := by
        intro empty
        exact some (List.map_eq_nil_iff.mp empty)
      rw [normalize_array, filled, if_pos, fillRows_fillRows some each]
      rw [Bool.and_eq_true, Bool.not_eq_true', List.isEmpty_eq_false_iff]
      exact ⟨filledSome, List.all_eq_true.mpr (isObject_fillRows each)⟩
  · next noTable =>
      rw [normalize_array, settled_items.mpr settled, if_neg noTable]

mutual

theorem normalize_normalize :
    ∀ value : Value Number, normalize (normalize value) = normalize value
  | .array items => settled_array (settled_items.mp (normalizeItems_normalizeItems items))
  | .object fields => congrArg Value.object (normalizeFields_normalizeFields fields)
  | .null => rfl
  | .bool _ => rfl
  | .number _ => rfl
  | .string _ => rfl

theorem normalizeItems_normalizeItems :
    ∀ items : List (Value Number), normalizeItems (normalizeItems items) = normalizeItems items
  | [] => rfl
  | item :: items => congrArg₂ List.cons (normalize_normalize item)
      (normalizeItems_normalizeItems items)

theorem normalizeFields_normalizeFields :
    ∀ fields : Fields Number, normalizeFields (normalizeFields fields) = normalizeFields fields
  | [] => rfl
  | (key, value) :: fields => congrArg₂ List.cons (congrArg (Prod.mk key) (normalize_normalize value))
      (normalizeFields_normalizeFields fields)

end

/-- A cell that is printed on its row's line: a scalar, or a list of comma-free
strings. -/
def IsCell (value : Value Number) : Prop :=
  isScalar value = true ∨
    ∃ texts : List Text, value = .array (texts.map .string) ∧ ∀ text ∈ texts, ',' ∉ text

theorem normalize_isCell (cell : IsCell value) : normalize value = value := by
  rcases cell with scalar | ⟨texts, rfl, -⟩
  · cases value with
    | array items => cases scalar
    | object fields => cases scalar
    | null => rfl
    | bool flag => rfl
    | number number => rfl
    | string text => rfl
  · have settled : normalizeItems (texts.map (.string : Text → Value Number)) =
        texts.map .string := by
      refine settled_items.mpr fun item member => ?_
      obtain ⟨text, -, rfl⟩ := List.mem_map.mp member
      rfl
    rw [normalize_array, settled, if_neg]
    cases texts with
    | nil => exact Bool.false_ne_true
    | cons text texts => exact Bool.false_ne_true

theorem mapM_commaFree (texts : List Text) (free : ∀ text ∈ texts, ',' ∉ text) :
    (texts.map (.string : Text → Value Number)).mapM commaFree = some texts := by
  induction texts with
  | nil => rfl
  | cons text texts induction =>
      rw [List.map_cons, List.mapM_cons, commaFree, if_neg (free text List.mem_cons_self),
        induction fun text member => free text (List.mem_cons_of_mem _ member)]
      rfl

theorem isScalar_joinStringArray (cell : IsCell value) : isScalar (joinStringArray value) = true := by
  rcases cell with scalar | ⟨texts, rfl, free⟩
  · cases value with
    | array items => cases scalar
    | object fields => cases scalar
    | null => rfl
    | bool flag => rfl
    | number number => rfl
    | string text => rfl
  · rw [joinStringArray, mapM_commaFree texts free]
    rfl

theorem isRow_fillRow (cells : ∀ field ∈ fields, IsCell field.2) :
    isRow keys (fillRow keys (.object fields)) = true := by
  rw [fillRow, isRow, asObject, Bool.and_eq_true, decide_eq_true_iff, List.all_eq_true,
    List.map_map]
  refine ⟨List.map_id _, fun field member => ?_⟩
  obtain ⟨key, -, rfl⟩ := List.mem_map.mp member
  refine isScalar_joinStringArray ?_
  cases found : fields.lookup key with
  | none => exact .inl rfl
  | some value =>
      obtain ⟨front, back, shape, -⟩ := List.lookup_eq_some_iff.mp found
      exact cells (key, value) (by rw [shape]; simp)

theorem isTabular_of_rows (notEmpty : rows ≠ []) (table : ∀ row ∈ rows, isRow names row = true) :
    isTabular rows = some names := by
  obtain ⟨first, rest, rfl⟩ := List.exists_cons_of_ne_nil notEmpty
  obtain ⟨fields, rfl, named, -⟩ := isRow_cases (table first List.mem_cons_self)
  rw [← named] at table ⊢
  rw [isTabular]
  exact if_pos (List.all_eq_true.mpr table)

/-- The header of a table and one line for each row. -/
def tableLines (numbers : NumberPrinting Number) (indent : Nat) (keyToken : Text)
    (names : List Text) (rows : List (Value Number)) : List Text :=
  (pad indent ++ keyToken ++ bracketed rows.length ++
      ('\x7b' :: joinCells (names.map stringToken) ++ "\x7d:".toList)) ::
    rows.map fun row => pad (indent + 2) ++ joinCells (rowCells numbers row)

theorem emitArray_of_isTabular (table : isTabular rows = some names) (indent : Nat)
    (keyToken : Text) :
    emitArray numbers indent keyToken rows = tableLines numbers indent keyToken names rows := by
  cases rows with
  | nil => cases table
  | cons first rest =>
      obtain ⟨fields, rfl, -⟩ := isRow_cases (isRow_of_isTabular table first List.mem_cons_self)
      rw [emitArray, if_neg (by simp [isScalar]), table, tableLines]
      simp

/-- An array of objects of such cells prints as a table with a line for each
row. -/
theorem normalize_prints_table (notEmpty : rows ≠ [])
    (objects : ∀ row ∈ rows, ∃ fields, row = .object fields ∧ ∀ field ∈ fields, IsCell field.2) :
    ∃ filled names, normalize (.array rows) = .array filled ∧ filled.length = rows.length ∧
      isTabular filled = some names ∧ ∀ indent keyToken,
        emitArray numbers indent keyToken filled = tableLines numbers indent keyToken names filled := by
  have settled : normalizeItems rows = rows := by
    refine settled_items.mpr fun row member => ?_
    obtain ⟨fields, rfl, cells⟩ := objects row member
    refine congrArg Value.object (settled_fields.mpr fun field isField => ?_)
    exact normalize_isCell (cells field isField)
  have each : ∀ row ∈ rows, isObject row = true := by
    intro row member
    obtain ⟨fields, rfl, -⟩ := objects row member
    rfl
  have table : isTabular (fillRows rows) = some (rowKeys rows) := by
    refine isTabular_of_rows (fun empty => notEmpty (List.map_eq_nil_iff.mp empty)) fun row member => ?_
    obtain ⟨source, isIn, rfl⟩ := List.mem_map.mp member
    obtain ⟨fields, rfl, cells⟩ := objects source isIn
    exact isRow_fillRow cells
  refine ⟨fillRows rows, rowKeys rows, ?_, List.length_map _, table,
    fun indent keyToken => emitArray_of_isTabular table indent keyToken⟩
  rw [normalize_array, settled, if_pos]
  rw [Bool.and_eq_true, Bool.not_eq_true', List.isEmpty_eq_false_iff]
  exact ⟨notEmpty, List.all_eq_true.mpr each⟩

theorem head_emitObject (numbers : NumberPrinting Number) (indent : Nat)
    (fields : Fields Number) : (emitObject numbers indent fields).head? ≠ some [] := by
  cases fields with
  | nil => exact fun same => by cases same
  | cons field fields =>
      obtain ⟨key, value⟩ := field
      obtain ⟨char, token, shape, -⟩ := stringToken_starts key
      rw [emitObject, emitEntry_eq, shape]
      simp

theorem render_object (numbers : NumberPrinting Number) (compact : Value Number → Text)
    (fields : Fields Number) : render numbers compact (.object fields) =
      joinLines (emitObject numbers 0 (normalizeFields fields)) := rfl

/-- Objects that print the same have one normal form; normalizing settles; and rows
of scalars and lists of comma-free strings print as a table. -/
theorem toon_reads_back (numbers : NumberPrinting Number) (compact : Value Number → Text) :
    (∀ left right : Fields Number,
      render numbers compact (.object left) = render numbers compact (.object right) →
        normalize (.object left) = normalize (.object right)) ∧
    (∀ value : Value Number, normalize (normalize value) = normalize value) ∧
    ∀ rows : List (Value Number), rows ≠ [] →
      (∀ row ∈ rows, ∃ fields, row = .object fields ∧ ∀ field ∈ fields, IsCell field.2) →
        ∃ filled names, normalize (.array rows) = .array filled ∧ filled.length = rows.length ∧
          isTabular filled = some names ∧ ∀ indent keyToken,
            emitArray numbers indent keyToken filled =
              tableLines numbers indent keyToken names filled := by
  refine ⟨fun left right same => ?_, normalize_normalize,
    fun rows notEmpty objects => normalize_prints_table notEmpty objects⟩
  rw [render_object, render_object] at same
  have lines := joinLines_inj (isLine_emitObject numbers _ 0) (isLine_emitObject numbers _ 0)
    (head_emitObject numbers 0 _) (head_emitObject numbers 0 _) same
  have fields := (fieldsRead numbers (normalizeFields left) (outside_nil 0) (outside_nil 0)
    (congrArg (· ++ []) lines)).1
  exact congrArg Value.object fields

namespace Joined

theorem takeWhile_decimal (count : Nat) :
    (decimal count).takeWhile isAsciiDigit = decimal count := by
  refine List.takeWhile_eq_self_iff.mpr fun char member => ?_
  have digit := Nat.isDigit_of_mem_toDigits (by decide) (by decide) member
  obtain ⟨low, high⟩ := Char.isDigit_iff_toNat.mp digit
  rw [isAsciiDigit, Bool.and_eq_true, decide_eq_true_iff, decide_eq_true_iff]
  exact ⟨low, high⟩

theorem dropWhile_decimal (count : Nat) : (decimal count).dropWhile isAsciiDigit = [] := by
  have whole : (decimal count).takeWhile isAsciiDigit ++ (decimal count).dropWhile isAsciiDigit =
      decimal count := List.takeWhile_append_dropWhile
  rw [takeWhile_decimal] at whole
  exact List.append_right_eq_self.mp whole

theorem withoutSign_decimal (count : Nat) : withoutSign (decimal count) = decimal count := by
  have plain : ∀ char ∈ decimal count, char.isDigit = true := fun char member =>
    Nat.isDigit_of_mem_toDigits (by decide) (by decide) member
  generalize decimal count = text at plain
  unfold withoutSign
  split
  · exact absurd (plain '+' List.mem_cons_self) (by decide)
  · exact absurd (plain '-' List.mem_cons_self) (by decide)
  · rfl

theorem parsesAsF64_decimal (count : Nat) : parsesAsF64 (decimal count) = true := by
  have some : decimal count ≠ [] := Nat.toDigits_ne_nil
  unfold parsesAsF64
  simp only [withoutSign_decimal, takeWhile_decimal, dropWhile_decimal]
  simp [fractionOf, isExponent, some]

/-- Natural numbers in decimal. -/
def decimals : NumberPrinting Nat := ⟨decimal, decimal_injective, parsesAsF64_decimal, plain_decimal⟩

def listed : Fields Nat :=
  [("hits".toList, .array [.object [("size".toList, .number 12),
    ("tags".toList, .array [.string "soil".toList, .string "loam".toList])]])]

def joined : Fields Nat :=
  [("hits".toList, .array [.object [("size".toList, .number 12),
    ("tags".toList, .string "soil,loam".toList)]])]

theorem toon_reads_back_joined :
    render decimals (fun _ => []) (.object listed) =
        "hits[1]\x7bsize,tags\x7d:\n  12,\"soil,loam\"".toList ∧
      normalize (.object listed) = normalize (.object joined) := by
  refine ⟨by decide, (toon_reads_back decimals fun _ => []).1 listed joined ?_⟩
  decide

end Joined

end Crystalline.Toon
