import Crystalline.Toon.Render

/-!
# Where each line belongs

What an entry, an array or an item prints is one line and the lines below it.
The lines below an entry are further in than the entry, and those of an array are
counted, so what is printed is known from any lines that start with it.
-/

namespace Crystalline.Toon

open Text

section

variable {Number : Type} {numbers : NumberPrinting Number}

/-- What may follow a token: nothing, or a structural character. -/
def Delimited (rest : Text) : Prop := ∀ char ∈ rest.head?, char ∈ structural

theorem delimited_nil : Delimited [] := fun _ none => by cases none

theorem delimited_cons {char : Char} (member : char ∈ structural) (rest : Text) :
    Delimited (char :: rest) := by
  intro first isFirst
  obtain rfl := Option.some.inj isFirst
  exact member

/-- A text without structural characters. -/
def Plain (text : Text) : Prop := ∀ char ∈ text, char ∉ structural

variable {left right rest tail : Text} {value : Value Number}

theorem plain_append_inj (leftPlain : Plain left) (rightPlain : Plain right)
    (leftEnds : Delimited rest) (rightEnds : Delimited tail) (same : left ++ rest = right ++ tail) :
    left = right ∧ rest = tail := by
  induction left generalizing right with
  | nil =>
      cases right with
      | nil => exact ⟨rfl, same⟩
      | cons char right =>
          rw [List.nil_append] at same
          rw [same] at leftEnds
          exact absurd (leftEnds char rfl) (rightPlain char List.mem_cons_self)
  | cons char left induction =>
      cases right with
      | nil =>
          rw [List.nil_append] at same
          rw [← same] at rightEnds
          exact absurd (rightEnds char rfl) (leftPlain char List.mem_cons_self)
      | cons other right =>
          obtain ⟨rfl, tailSame⟩ := List.cons.inj same
          obtain ⟨rfl, restSame⟩ := induction
            (fun char member => leftPlain char (List.mem_cons_of_mem _ member))
            (fun char member => rightPlain char (List.mem_cons_of_mem _ member)) tailSame
          exact ⟨rfl, restSame⟩

theorem escapeChar_cases (char : Char) :
    (∃ code, escapeChar char = ['\\', code]) ∨
      escapeChar char = [char] ∧ char ≠ '\\' ∧ char ≠ '"' := by
  unfold escapeChar
  split
  · exact .inl ⟨'\\', rfl⟩
  · exact .inl ⟨'"', rfl⟩
  · exact .inl ⟨'n', rfl⟩
  · exact .inl ⟨'r', rfl⟩
  · exact .inl ⟨'t', rfl⟩
  · next notBackslash notQuote _ _ _ => exact .inr ⟨rfl, notBackslash, notQuote⟩

theorem escapeChar_injective : Function.Injective escapeChar := by
  intro left right same
  unfold escapeChar at same
  split at same <;> split at same <;> simp_all

variable {rest tail : Text}

theorem escapeChar_append_inj {left right : Char}
    (same : escapeChar left ++ rest = escapeChar right ++ tail) : left = right ∧ rest = tail := by
  rcases escapeChar_cases left with ⟨leftCode, isLeft⟩ | ⟨isLeft, leftOther, -⟩ <;>
    rcases escapeChar_cases right with ⟨rightCode, isRight⟩ | ⟨isRight, rightOther, -⟩ <;>
      rw [isLeft, isRight] at same
  · obtain ⟨sameCode, sameRest⟩ := List.cons.inj (List.cons.inj same).2
    exact ⟨escapeChar_injective (by rw [isLeft, isRight, sameCode]), sameRest⟩
  · exact absurd (List.cons.inj same).1.symm rightOther
  · exact absurd (List.cons.inj same).1 leftOther
  · exact List.cons.inj same

/-- The quote that closes is the first one that is not escaped. -/
theorem escape_append_inj (same : escape left ++ '"' :: rest = escape right ++ '"' :: tail) :
    left = right ∧ rest = tail := by
  have opens : ∀ (char : Char) (text after : Text), '"' :: after ≠ escapeChar char ++ text := by
    intro char text after same
    rcases escapeChar_cases char with ⟨code, isChar⟩ | ⟨isChar, -, other⟩
    · rw [isChar] at same
      exact absurd (List.cons.inj same).1 (by decide)
    · rw [isChar] at same
      exact other (List.cons.inj same).1.symm
  induction left generalizing right with
  | nil =>
      cases right with
      | nil => exact ⟨rfl, (List.cons.inj same).2⟩
      | cons char right =>
          rw [escape, escape, List.flatMap_cons, List.append_assoc] at same
          exact absurd same (opens char _ _)
  | cons char left induction =>
      cases right with
      | nil =>
          rw [escape, escape, List.flatMap_cons, List.append_assoc] at same
          exact absurd same.symm (opens char _ _)
      | cons other right =>
          simp only [escape, List.flatMap_cons, List.append_assoc] at same
          obtain ⟨rfl, sameRest⟩ := escapeChar_append_inj same
          obtain ⟨rfl, sameTail⟩ := induction sameRest
          exact ⟨rfl, sameTail⟩

theorem bare_of_not_needsQuoting {text : Text} (bare : needsQuoting text = false) :
    text ≠ [] ∧ Plain text ∧ parsesAsF64 text = false ∧
      text ∉ ["true".toList, "false".toList, "null".toList] ∧
        ∀ char ∈ text.head?, isWhitespace char = false ∧ char ≠ '-' := by
  simp only [needsQuoting, Bool.or_eq_false_iff, decide_eq_false_iff_not, List.any_eq_false,
    List.contains_eq_mem] at bare
  obtain ⟨⟨⟨⟨⟨⟨some, front⟩, -⟩, notWord⟩, notHyphen⟩, notNumber⟩, plain⟩ := bare
  refine ⟨some, fun char member => by simpa using plain char member, notNumber, notWord, ?_⟩
  intro char isFirst
  cases text with
  | nil => cases isFirst
  | cons first rest =>
      obtain rfl := Option.some.inj isFirst
      refine ⟨by simpa using front, ?_⟩
      rintro rfl
      simp [startsWith, stripPrefix] at notHyphen

/-- A token that is not a quoted string. -/
def isBare : Value Number → Bool
  | .string text => !needsQuoting text
  | value => isScalar value

theorem needsQuoting_of_parses {text : Text} (parses : parsesAsF64 text = true) :
    needsQuoting text = true := by
  rw [needsQuoting, parses]
  simp

theorem parsesAsF64_nil : parsesAsF64 [] = false := by decide

theorem plain_word (text : Text) (word : text ∈ ["true".toList, "false".toList, "null".toList]) :
    Plain text := by
  have words : ∀ text ∈ ["true".toList, "false".toList, "null".toList],
      (text.all fun char => !structural.contains char) = true := by decide
  intro char member isStructural
  have plain := List.all_eq_true.mp (words text word) char member
  rw [List.contains_iff_mem.mpr isStructural] at plain
  cases plain

theorem bare_token (numbers : NumberPrinting Number) (bare : isBare value = true) :
    Plain (scalarToken numbers value) ∧ scalarToken numbers value ≠ [] := by
  cases value with
  | null => exact ⟨plain_word "null".toList (by decide), List.cons_ne_nil _ _⟩
  | bool flag =>
      cases flag
      · exact ⟨plain_word "false".toList (by decide), List.cons_ne_nil _ _⟩
      · exact ⟨plain_word "true".toList (by decide), List.cons_ne_nil _ _⟩
  | number number =>
      refine ⟨numbers.plain number, fun empty => ?_⟩
      have parses := numbers.parses number
      change numbers.print number = [] at empty
      rw [empty, parsesAsF64_nil] at parses
      cases parses
  | string text =>
      have quoted : needsQuoting text = false := by simpa [isBare] using bare
      obtain ⟨some, plain, -⟩ := bare_of_not_needsQuoting quoted
      rw [scalarToken, stringToken, quoted]
      exact ⟨plain, some⟩
  | array items => cases bare
  | object fields => cases bare

/-- The scalar a bare token that is no number spells. -/
def spelled (token : Text) : Option (Value Number) :=
  if needsQuoting token = false then some (.string token)
  else if token = "null".toList then some .null
  else if token = "true".toList then some (.bool true)
  else if token = "false".toList then some (.bool false)
  else none

theorem spelled_token (numbers : NumberPrinting Number) (bare : isBare value = true)
    (notNumber : ∀ number, value ≠ .number number) :
    spelled (scalarToken numbers value) = some value := by
  cases value with
  | null => rfl
  | bool flag => cases flag <;> rfl
  | number number => exact absurd rfl (notNumber number)
  | string text =>
      have quoted : needsQuoting text = false := by simpa [isBare] using bare
      rw [scalarToken, stringToken, quoted, if_neg Bool.false_ne_true, spelled, if_pos quoted]
  | array items => cases bare
  | object fields => cases bare

theorem spelled_number (numbers : NumberPrinting Number) (number : Number) :
    (spelled (numbers.print number) : Option (Value Number)) = none := by
  have parses := numbers.parses number
  have apart : ∀ text, parsesAsF64 text = false → numbers.print number ≠ text := by
    rintro text notNumber same
    rw [same, notNumber] at parses
    cases parses
  rw [spelled, needsQuoting_of_parses parses, if_neg (by decide),
    if_neg (apart _ (by decide)), if_neg (apart _ (by decide)), if_neg (apart _ (by decide))]

theorem bare_inj {left right : Value Number} (leftBare : isBare left = true)
    (rightBare : isBare right = true)
    (same : scalarToken numbers left = scalarToken numbers right) : left = right := by
  by_cases leftNumber : ∃ number, left = .number number
  · obtain ⟨number, rfl⟩ := leftNumber
    by_cases rightNumber : ∃ other, right = .number other
    · obtain ⟨other, rfl⟩ := rightNumber
      exact congrArg Value.number (numbers.injective same)
    · have spells := spelled_token numbers rightBare
        fun other isNumber => rightNumber ⟨other, isNumber⟩
      rw [← same, scalarToken, spelled_number] at spells
      cases spells
  · have spells := spelled_token numbers leftBare
      fun number isNumber => leftNumber ⟨number, isNumber⟩
    by_cases rightNumber : ∃ other, right = .number other
    · obtain ⟨other, rfl⟩ := rightNumber
      rw [same, scalarToken, spelled_number] at spells
      cases spells
    · have spellsRight := spelled_token numbers rightBare
        fun other isNumber => rightNumber ⟨other, isNumber⟩
      rw [same, spellsRight] at spells
      exact (Option.some.inj spells).symm

theorem quoted_token (numbers : NumberPrinting Number) (scalar : isScalar value = true)
    (quoted : isBare value = false) :
    ∃ text, value = .string text ∧
      scalarToken numbers value = '"' :: (escape text ++ "\"".toList) := by
  cases value with
  | string text =>
      refine ⟨text, rfl, ?_⟩
      rw [scalarToken, stringToken, if_pos (by simpa [isBare] using quoted)]
      rfl
  | null => cases quoted
  | bool flag => cases quoted
  | number number => cases quoted
  | array items => cases scalar
  | object fields => cases scalar

theorem token_starts (numbers : NumberPrinting Number) (scalar : isScalar value = true) :
    ∃ char rest, scalarToken numbers value = char :: rest ∧ (char = '"' ∨ char ∉ structural) := by
  cases bare : isBare value with
  | true =>
      obtain ⟨plain, some⟩ := bare_token numbers bare
      obtain ⟨char, rest, shape⟩ := List.exists_cons_of_ne_nil some
      exact ⟨char, rest, shape, .inr (plain char (shape ▸ List.mem_cons_self))⟩
  | false =>
      obtain ⟨text, -, shape⟩ := quoted_token numbers scalar bare
      exact ⟨'"', _, shape, .inl rfl⟩

/-- A scalar and what follows it are known from the two together. -/
theorem scalarToken_append_inj {left right : Value Number} (leftScalar : isScalar left = true)
    (rightScalar : isScalar right = true) (leftEnds : Delimited rest) (rightEnds : Delimited tail)
    (same : scalarToken numbers left ++ rest = scalarToken numbers right ++ tail) :
    left = right ∧ rest = tail := by
  have apart : ∀ {bare quoted : Value Number} {rest tail : Text}, isBare bare = true →
      isScalar quoted = true → isBare quoted = false →
        scalarToken numbers bare ++ rest ≠ scalarToken numbers quoted ++ tail := by
    intro bare quoted rest tail isBare scalar isQuoted same
    obtain ⟨plain, some⟩ := bare_token numbers isBare
    obtain ⟨char, token, shape⟩ := List.exists_cons_of_ne_nil some
    obtain ⟨text, -, quotes⟩ := quoted_token numbers scalar isQuoted
    rw [shape, quotes] at same
    have isQuote : char = '"' := (List.cons.inj same).1
    exact plain char (shape ▸ List.mem_cons_self) (isQuote ▸ by decide)
  cases leftBare : isBare left with
  | true =>
      cases rightBare : isBare right with
      | true =>
          obtain ⟨sameToken, sameRest⟩ := plain_append_inj (bare_token numbers leftBare).1
            (bare_token numbers rightBare).1 leftEnds rightEnds same
          exact ⟨bare_inj leftBare rightBare sameToken, sameRest⟩
      | false => exact absurd same (apart leftBare rightScalar rightBare)
  | false =>
      cases rightBare : isBare right with
      | true => exact absurd same.symm (apart rightBare leftScalar leftBare)
      | false =>
          obtain ⟨text, rfl, leftQuotes⟩ := quoted_token numbers leftScalar leftBare
          obtain ⟨other, rfl, rightQuotes⟩ :=
            quoted_token numbers rightScalar rightBare
          rw [leftQuotes, rightQuotes] at same
          simp only [List.cons_append, List.append_assoc, List.cons.injEq, true_and] at same
          obtain ⟨rfl, sameRest⟩ := escape_append_inj same
          exact ⟨rfl, sameRest⟩

/-- No numbers at all, to print strings with. -/
def noNumbers : NumberPrinting Empty :=
  ⟨Empty.elim, fun number => number.elim, fun number => number.elim, fun number => number.elim⟩

theorem stringToken_append_inj (leftEnds : Delimited rest) (rightEnds : Delimited tail)
    (same : stringToken left ++ rest = stringToken right ++ tail) : left = right ∧ rest = tail := by
  have asScalars : scalarToken noNumbers (.string left) ++ rest =
      scalarToken noNumbers (.string right) ++ tail := same
  obtain ⟨sameString, sameRest⟩ := scalarToken_append_inj rfl rfl leftEnds rightEnds asScalars
  exact ⟨Value.string.inj sameString, sameRest⟩

end

section

variable {Number : Type} {numbers : NumberPrinting Number}

section Cells

variable {Item : Type}

/-- A printing of items that ends where it ends, and never starts with a comma or a
closing brace. -/
structure Cell (token : Item → Text) (good : Item → Prop) : Prop where
  inj : ∀ {left right : Item} {rest tail : Text}, good left → good right → Delimited rest →
    Delimited tail → token left ++ rest = token right ++ tail → left = right ∧ rest = tail
  starts : ∀ {item : Item} {rest tail : Text}, good item → (∀ char ∈ tail.head?, char = '\x7d') →
    token item ++ rest ≠ tail

variable {token : Item → Text} {good : Item → Prop}

/-- The cells after the first. -/
def laterCells (token : Item → Text) (items : List Item) : Text :=
  items.flatMap fun item => ',' :: token item

theorem joinCells_cons (token : Item → Text) (item : Item) (items : List Item) :
    joinCells ((item :: items).map token) = token item ++ laterCells token items := by
  induction items generalizing item with
  | nil => simp [joinCells, laterCells, List.intercalate]
  | cons next items induction =>
      have tail := induction next
      rw [List.map_cons, joinCells, List.intercalate_cons_of_ne_nil (by simp), ← joinCells, tail]
      simp [laterCells]

/-- What follows a line of cells: nothing, or a closing brace. -/
def Closed (rest : Text) : Prop := ∀ char ∈ rest.head?, char = '\x7d'

theorem closed_nil : Closed [] := fun _ none => by cases none

theorem closed_brace : Closed "\x7d:".toList := by
  intro char isFirst
  exact (Option.some.inj isFirst).symm

theorem Closed.delimited {rest : Text} (closed : Closed rest) : Delimited rest := by
  intro char isFirst
  rw [closed char isFirst]
  decide

theorem delimited_laterCells (items : List Item) {rest : Text} (closed : Closed rest) :
    Delimited (laterCells token items ++ rest) := by
  cases items with
  | nil => exact closed.delimited
  | cons item items => exact delimited_cons (by decide) _

section

variable (cell : Cell token good) {left right : List Item} {rest tail : Text}
  (leftGood : ∀ item ∈ left, good item) (rightGood : ∀ item ∈ right, good item)
  (leftEnds : Closed rest) (rightEnds : Closed tail)
include cell leftGood rightGood leftEnds rightEnds

theorem laterCells_append_inj
    (same : laterCells token left ++ rest = laterCells token right ++ tail) :
    left = right ∧ rest = tail := by
  have comma : ∀ (item : Item) (items : List Item) {rest tail : Text}, Closed tail →
      laterCells token (item :: items) ++ rest ≠ tail := by
    intro item items rest tail closed same
    have isComma : ',' = '\x7d' := closed ',' (by rw [← same]; rfl)
    exact absurd isComma (by decide)
  induction left generalizing right with
  | nil =>
      cases right with
      | nil => exact ⟨rfl, same⟩
      | cons item right => exact absurd same.symm (comma item right leftEnds)
  | cons item left induction =>
      cases right with
      | nil => exact absurd same (comma item left rightEnds)
      | cons other right =>
          simp only [laterCells, List.flatMap_cons, List.cons_append, List.append_assoc,
            List.cons.injEq, true_and] at same
          obtain ⟨rfl, sameLater⟩ := cell.inj (leftGood item List.mem_cons_self)
            (rightGood other List.mem_cons_self) (delimited_laterCells left leftEnds)
            (delimited_laterCells right rightEnds) same
          obtain ⟨rfl, sameRest⟩ := induction
            (fun item member => leftGood item (List.mem_cons_of_mem _ member))
            (fun item member => rightGood item (List.mem_cons_of_mem _ member)) sameLater
          exact ⟨rfl, sameRest⟩

/-- A line of cells is known from any text that starts with it. -/
theorem joinCells_append_inj
    (same : joinCells (left.map token) ++ rest = joinCells (right.map token) ++ tail) :
    left = right ∧ rest = tail := by
  cases left with
  | nil =>
      cases right with
      | nil => exact ⟨rfl, same⟩
      | cons other right =>
          rw [joinCells_cons, List.append_assoc] at same
          exact absurd same.symm (cell.starts (rightGood other List.mem_cons_self) leftEnds)
  | cons item left =>
      cases right with
      | nil =>
          rw [joinCells_cons, List.append_assoc] at same
          exact absurd same (cell.starts (leftGood item List.mem_cons_self) rightEnds)
      | cons other right =>
          rw [joinCells_cons, joinCells_cons, List.append_assoc, List.append_assoc] at same
          obtain ⟨rfl, sameLater⟩ := cell.inj (leftGood item List.mem_cons_self)
            (rightGood other List.mem_cons_self) (delimited_laterCells left leftEnds)
            (delimited_laterCells right rightEnds) same
          obtain ⟨rfl, sameRest⟩ := laterCells_append_inj cell
            (fun item member => leftGood item (List.mem_cons_of_mem _ member))
            (fun item member => rightGood item (List.mem_cons_of_mem _ member)) leftEnds rightEnds
            sameLater
          exact ⟨rfl, sameRest⟩

end

end Cells

theorem cell_scalarToken (numbers : NumberPrinting Number) :
    Cell (scalarToken numbers) fun value => isScalar value = true := by
  refine ⟨scalarToken_append_inj, fun {value rest tail} scalar closed same => ?_⟩
  obtain ⟨char, token, shape, starts⟩ := token_starts numbers scalar
  rw [shape] at same
  have isBrace : char = '\x7d' := closed char (by rw [← same]; rfl)
  subst isBrace
  exact absurd starts (by decide)

theorem cell_stringToken : Cell stringToken fun _ => True := by
  have scalars := cell_scalarToken noNumbers
  refine ⟨fun _ _ => stringToken_append_inj, fun {text rest tail} _ closed => ?_⟩
  exact @Cell.starts _ _ _ scalars (.string text) rest tail rfl closed

theorem decimal_injective : Function.Injective decimal := by
  intro left right same
  have read := congrArg (Nat.ofDigitChars 10 · 0) same
  simpa [decimal, Nat.ofDigitChars_ten_toDigits] using read

theorem plain_decimal (count : Nat) : Plain (decimal count) := by
  intro char member isStructural
  have digit := Nat.isDigit_of_mem_toDigits (by decide) (by decide) member
  have apart : (structural.all fun char => !char.isDigit) = true := by decide
  have notDigit := List.all_eq_true.mp apart char isStructural
  rw [digit] at notDigit
  cases notDigit

theorem bracketed_append_inj {left right : Nat} {rest tail : Text}
    (same : bracketed left ++ rest = bracketed right ++ tail) : left = right ∧ rest = tail := by
  simp only [bracketed, List.cons_append, List.append_assoc, List.cons.injEq, true_and] at same
  obtain ⟨sameCount, sameRest⟩ := plain_append_inj (plain_decimal left) (plain_decimal right)
    (delimited_cons (by decide) _) (delimited_cons (by decide) _) same
  exact ⟨decimal_injective sameCount, (List.cons.inj sameRest).2⟩

end

variable {Number : Type} {numbers : NumberPrinting Number}

section Heads

variable (numbers)

/-- The header of an array, after its count. -/
def arrayTail : List (Value Number) → Text
  | [] => ":".toList
  | first :: rest =>
    if (first :: rest).all isScalar then
      ": ".toList ++ joinCells ((first :: rest).map (scalarToken numbers))
    else match isTabular (first :: rest) with
      | some names => '\x7b' :: joinCells (names.map stringToken) ++ "\x7d:".toList
      | none => ":".toList

/-- The lines below the header of an array. -/
def arrayRest (indent : Nat) : List (Value Number) → List Text
  | [] => []
  | first :: rest =>
    if (first :: rest).all isScalar then []
    else match isTabular (first :: rest) with
      | some _ => (first :: rest).map fun item =>
          pad (indent + 2) ++ joinCells (rowCells numbers item)
      | none => emitListItems numbers (indent + 2) (first :: rest)

/-- The line of an entry, after its key. -/
def entryHead : Value Number → Text
  | .object _ => ":".toList
  | .array items => bracketed items.length ++ arrayTail numbers items
  | scalar => ": ".toList ++ scalarToken numbers scalar

def entryRest (indent : Nat) : Value Number → List Text
  | .object fields => emitObject numbers (indent + 2) fields
  | .array items => arrayRest numbers indent items
  | _ => []

/-- The line of an item, after its hyphen. -/
def itemHead : Value Number → Text
  | .object [] => []
  | .object ((key, value) :: _) => ' ' :: (stringToken key ++ entryHead numbers value)
  | .array items => ' ' :: (bracketed items.length ++ arrayTail numbers items)
  | scalar => ' ' :: scalarToken numbers scalar

def itemRest (indent : Nat) : Value Number → List Text
  | .object [] => []
  | .object ((_, value) :: fields) =>
      entryRest numbers (indent + 2) value ++ emitObject numbers (indent + 2) fields
  | .array items => arrayRest numbers (indent + 2) items
  | _ => []

variable (indent : Nat)

theorem bracketed_zero : bracketed 0 ++ ":".toList = "[0]:".toList := by decide

theorem emitArray_eq (keyToken : Text) (items : List (Value Number)) :
    emitArray numbers indent keyToken items =
      (pad indent ++ keyToken ++ (bracketed items.length ++ arrayTail numbers items)) ::
        arrayRest numbers indent items := by
  cases items with
  | nil => rw [emitArray, arrayTail, arrayRest, List.length_nil, bracketed_zero]
  | cons first rest =>
      rw [emitArray, arrayTail, arrayRest]
      split
      · simp
      · cases isTabular (first :: rest) with
        | some names => simp
        | none => simp [emitListItems]

theorem emitEntry_eq (key : Text) (value : Value Number) :
    emitEntry numbers indent key value =
      (pad indent ++ stringToken key ++ entryHead numbers value) ::
        entryRest numbers indent value := by
  cases value with
  | object fields => rw [emitEntry, entryHead, entryRest]
  | array items => rw [emitEntry, entryHead, entryRest, emitArray_eq]
  | null => simp [emitEntry, entryHead, entryRest]
  | bool flag => simp [emitEntry, entryHead, entryRest]
  | number number => simp [emitEntry, entryHead, entryRest]
  | string text => simp [emitEntry, entryHead, entryRest]

theorem foldHyphen_pad (line : Text) (lines : List Text) :
    foldHyphen indent ((pad (indent + 2) ++ line) :: lines) =
      (pad indent ++ '-' :: ' ' :: line) :: lines := by
  rw [foldHyphen, List.drop_left' (by simp [pad])]
  simp

theorem emitListItem_eq (item : Value Number) :
    emitListItem numbers indent item =
      (pad indent ++ '-' :: itemHead numbers item) :: itemRest numbers indent item := by
  cases item with
  | object fields =>
      cases fields with
      | nil => rfl
      | cons field fields =>
          obtain ⟨key, value⟩ := field
          rw [emitListItem, emitObject, emitEntry_eq, itemHead, itemRest, if_neg (by simp),
            List.cons_append, List.append_assoc, foldHyphen_pad]
  | array items =>
      rw [emitListItem, emitArray_eq, itemHead, itemRest, List.append_nil, foldHyphen_pad]
  | null => simp [emitListItem, itemHead, itemRest]
  | bool flag => simp [emitListItem, itemHead, itemRest]
  | number number => simp [emitListItem, itemHead, itemRest]
  | string text => simp [emitListItem, itemHead, itemRest]

end Heads

/-- The lines do not start as far in as that. -/
def Outside (indent : Nat) (lines : List Text) : Prop :=
  ∀ line ∈ lines.head?, ¬ pad indent <+: line

theorem outside_nil (indent : Nat) : Outside indent [] := fun _ none => by cases none

variable {indent deeper : Nat}

theorem Outside.mono {lines : List Text} (outside : Outside indent lines) (deep : indent ≤ deeper) :
    Outside deeper lines := by
  intro line first inside
  refine outside line first (List.IsPrefix.trans ?_ inside)
  refine ⟨pad (deeper - indent), ?_⟩
  rw [pad, pad, pad, ← List.replicate_add, Nat.add_sub_cancel' deep]

theorem outside_cons (deep : indent < deeper) {char : Char} (notBlank : char ≠ ' ') (text : Text)
    (lines : List Text) : Outside deeper ((pad indent ++ char :: text) :: lines) := by
  rintro line first ⟨after, whole⟩
  obtain rfl := Option.some.inj first
  obtain ⟨more, rfl⟩ : ∃ more, deeper = indent + (more + 1) := ⟨deeper - indent - 1, by omega⟩
  rw [pad, pad, List.replicate_add, List.append_assoc, List.append_cancel_left_eq] at whole
  exact notBlank (List.cons.inj whole).1.symm

theorem stringToken_starts (text : Text) :
    ∃ char rest, stringToken text = char :: rest ∧ char ≠ ' ' ∧ char ≠ '[' := by
  unfold stringToken
  split
  · exact ⟨'"', _, rfl, by decide, by decide⟩
  · next bare =>
      rw [Bool.not_eq_true] at bare
      obtain ⟨some, plain, -, -, first⟩ := bare_of_not_needsQuoting bare
      obtain ⟨char, rest, rfl⟩ := List.exists_cons_of_ne_nil some
      refine ⟨char, rest, rfl, ?_, ?_⟩
      · rintro rfl
        exact absurd (first ' ' rfl).1 (by decide)
      · rintro rfl
        exact plain '[' List.mem_cons_self (by decide)

variable {rest : List Text}

theorem outside_emitObject (deep : indent < deeper) (fields : Fields Number)
    (outside : Outside indent rest) :
    Outside deeper (emitObject numbers indent fields ++ rest) := by
  cases fields with
  | nil => exact outside.mono deep.le
  | cons field fields =>
      obtain ⟨key, value⟩ := field
      obtain ⟨char, token, shape, notBlank, -⟩ := stringToken_starts key
      rw [emitObject, emitEntry_eq, shape, List.append_assoc (pad indent)]
      exact outside_cons deep notBlank _ _

theorem outside_emitListItems (deep : indent < deeper) (items : List (Value Number))
    (outside : Outside deeper rest) :
    Outside deeper (emitListItems numbers indent items ++ rest) := by
  cases items with
  | nil => exact outside
  | cons item items =>
      rw [emitListItems, emitListItem_eq]
      exact outside_cons deep (by decide) _ _

end Crystalline.Toon
