import Crystalline.Text.Basic

/-!
# Byte offsets

A text is indexed by the bytes of its UTF-8 form, and a slice whose ends are not
character boundaries inside the text answers nothing.
-/

namespace Crystalline.Text

/-- `str::len`. -/
def byteLen : Text → Nat
  | [] => 0
  | char :: text => char.utf8Size + byteLen text

/-- The text before a byte offset and the text from it on. -/
def splitBytes : Text → Nat → Option (Text × Text)
  | text, 0 => some ([], text)
  | [], _ + 1 => none
  | char :: text, offset + 1 =>
      if char.utf8Size ≤ offset + 1 then
        (splitBytes text (offset + 1 - char.utf8Size)).map fun parts =>
          (char :: parts.1, parts.2)
      else none

/-- `&text[start..]`. -/
def sliceFrom (text : Text) (start : Nat) : Option Text := (splitBytes text start).map Prod.snd

/-- `&text[..stop]`. -/
def sliceTo (text : Text) (stop : Nat) : Option Text := (splitBytes text stop).map Prod.fst

/-- `&text[start..stop]`. -/
def sliceBytes (text : Text) (start stop : Nat) : Option Text :=
  if start ≤ stop then (sliceTo text stop).bind fun front => sliceFrom front start else none

/-- `str::as_bytes`. -/
def bytes (text : Text) : List UInt8 := text.flatMap String.utf8EncodeChar

/-- `str::find` of a pattern. -/
def findBytes (pattern text : Text) : Option Nat :=
  (splitOnce pattern text).map fun parts => byteLen parts.1

/-- `str::find` of a character. -/
def findWhere (holds : Char → Bool) (text : Text) : Option Nat :=
  match text.dropWhile (!holds ·) with
  | [] => none
  | _ :: _ => some (byteLen (text.takeWhile (!holds ·)))

@[simp] theorem byteLen_nil : byteLen [] = 0 := rfl

@[simp] theorem byteLen_cons (char : Char) (text : Text) :
    byteLen (char :: text) = char.utf8Size + byteLen text := rfl

@[simp] theorem byteLen_append (front back : Text) :
    byteLen (front ++ back) = byteLen front + byteLen back := by
  induction front with
  | nil => simp
  | cons char front induction =>
      rw [List.cons_append, byteLen_cons, byteLen_cons, induction]
      omega

@[simp] theorem splitBytes_append (front back : Text) :
    splitBytes (front ++ back) (byteLen front) = some (front, back) := by
  induction front with
  | nil => cases back <;> rfl
  | cons char front induction =>
      have positive := char.utf8Size_pos
      obtain ⟨offset, whole⟩ : ∃ offset, char.utf8Size + byteLen front = offset + 1 :=
        ⟨char.utf8Size + byteLen front - 1, by omega⟩
      rw [List.cons_append, byteLen_cons, whole, splitBytes, if_pos (by omega)]
      have rest : offset + 1 - char.utf8Size = byteLen front := by omega
      rw [rest, induction]
      rfl

variable {offset : Nat}

theorem splitBytes_eq_some_iff {text front back : Text} :
    splitBytes text offset = some (front, back) ↔
      text = front ++ back ∧ offset = byteLen front := by
  constructor
  · intro cut
    induction text generalizing offset front back with
    | nil =>
        cases offset with
        | zero =>
            cases cut
            exact ⟨rfl, rfl⟩
        | succ offset => cases cut
    | cons char text induction =>
        cases offset with
        | zero =>
            cases cut
            exact ⟨rfl, rfl⟩
        | succ offset =>
            rw [splitBytes] at cut
            split at cut
            next fits =>
              obtain ⟨parts, inner, same⟩ := Option.map_eq_some_iff.mp cut
              obtain ⟨rfl, length⟩ := induction inner
              cases same
              refine ⟨rfl, ?_⟩
              rw [byteLen_cons]
              omega
            next => cases cut
  · rintro ⟨rfl, rfl⟩
    exact splitBytes_append front back

@[simp] theorem sliceFrom_append (front back : Text) :
    sliceFrom (front ++ back) (byteLen front) = some back := by
  rw [sliceFrom, splitBytes_append]
  rfl

@[simp] theorem sliceTo_append (front back : Text) :
    sliceTo (front ++ back) (byteLen front) = some front := by
  rw [sliceTo, splitBytes_append]
  rfl

@[simp] theorem sliceBytes_append (front inside back : Text) :
    sliceBytes (front ++ (inside ++ back)) (byteLen front) (byteLen front + byteLen inside) =
      some inside := by
  rw [sliceBytes, if_pos (Nat.le_add_right _ _), ← byteLen_append, ← List.append_assoc,
    sliceTo_append]
  exact sliceFrom_append front inside

theorem findBytes_eq_some {pattern text : Text} (found : findBytes pattern text = some offset) :
    ∃ front back, text = front ++ (pattern ++ back) ∧ offset = byteLen front := by
  obtain ⟨⟨front, back⟩, cut, rfl⟩ := Option.map_eq_some_iff.mp found
  obtain ⟨rfl, -⟩ := splitOnce_eq_some_iff.mp cut
  exact ⟨front, back, List.append_assoc _ _ _, rfl⟩

theorem findWhere_eq_some {holds : Char → Bool} {text : Text}
    (found : findWhere holds text = some offset) :
    ∃ front char back, text = front ++ char :: back ∧ holds char = true ∧
      offset = byteLen front := by
  rw [findWhere] at found
  split at found
  next => cases found
  next char back rest =>
    have here : holds char = true := by
      have first := List.head?_dropWhile_not (fun char => !holds char) text
      rw [rest] at first
      simpa using first
    have whole := List.takeWhile_append_dropWhile (p := (!holds ·)) (l := text)
    rw [rest] at whole
    exact ⟨_, char, back, whole.symm, here, (Option.some.inj found).symm⟩

theorem high_of_wide {char : Char} (wide : 1 < char.utf8Size) :
    ∀ byte ∈ String.utf8EncodeChar char, 0x80 ≤ byte.toNat := by
  have high : ∀ byte mark : UInt8, 0x80 ≤ mark.toNat → 0x80 ≤ (byte ||| mark).toNat := by
    intro byte mark large
    rw [UInt8.toNat_or]
    exact Nat.le_trans large Nat.right_le_or
  have bound := char.utf8Size_le_four
  intro byte member
  obtain two | three | four : char.utf8Size = 2 ∨ char.utf8Size = 3 ∨ char.utf8Size = 4 := by
    omega
  · rw [String.utf8EncodeChar_eq_cons_cons two] at member
    simp only [List.mem_cons, List.not_mem_nil, or_false] at member
    rcases member with rfl | rfl <;> exact high _ _ (by decide)
  · rw [String.utf8EncodeChar_eq_cons_cons_cons three] at member
    simp only [List.mem_cons, List.not_mem_nil, or_false] at member
    rcases member with rfl | rfl | rfl <;> exact high _ _ (by decide)
  · rw [String.utf8EncodeChar_eq_cons_cons_cons_cons four] at member
    simp only [List.mem_cons, List.not_mem_nil, or_false] at member
    rcases member with rfl | rfl | rfl | rfl <;> exact high _ _ (by decide)

/-- An ASCII byte stands for its character, at a boundary. -/
theorem exists_ascii {text : Text} {index : Nat} {byte : UInt8}
    (found : (bytes text)[index]? = some byte) (ascii : byte.toNat < 0x80) :
    ∃ front back, text = front ++ Char.ofNat byte.toNat :: back ∧ index = byteLen front := by
  induction text generalizing index with
  | nil => cases found
  | cons char text induction =>
      have length := String.length_utf8EncodeChar char
      rw [bytes, List.flatMap_cons] at found
      by_cases inside : index < char.utf8Size
      · rw [List.getElem?_append_left (by omega)] at found
        have member := List.mem_of_getElem? found
        have narrow : char.utf8Size = 1 := by
          by_contra wide
          have positive := char.utf8Size_pos
          have high := high_of_wide (by omega : 1 < char.utf8Size) byte member
          omega
        rw [String.utf8EncodeChar_eq_singleton narrow, List.mem_singleton] at member
        refine ⟨[], text, ?_, by rw [byteLen_nil]; omega⟩
        have small := Char.utf8Size_eq_one_iff.mp narrow
        have value : byte.toNat = char.toNat := by
          rw [member, UInt32.toNat_toUInt8]
          have bound := UInt32.le_iff_toNat_le.mp small
          exact Nat.mod_eq_of_lt (Nat.lt_of_le_of_lt bound (by decide))
        rw [value, Char.ofNat_toNat]
        rfl
      · rw [List.getElem?_append_right (by omega), length] at found
        obtain ⟨front, back, rfl, place⟩ := induction found
        refine ⟨char :: front, back, rfl, ?_⟩
        rw [byteLen_cons]
        omega

/-- `str::from_utf8`. -/
def fromUtf8 (bytes : List UInt8) : Option Text :=
  (String.fromUTF8? ⟨bytes.toArray⟩).map String.toList

/-- `str::as_bytes`. -/
def toUtf8 (text : Text) : List UInt8 := (String.ofList text).toUTF8.data.toList

/-- The bytes of a text are read as the text. -/
@[simp] theorem fromUtf8_toUtf8 (text : Text) : fromUtf8 (toUtf8 text) = some text := by
  have whole : (⟨(String.ofList text).toUTF8.data.toList.toArray⟩ : ByteArray) =
      (String.ofList text).toByteArray := rfl
  rw [fromUtf8, toUtf8, whole, String.fromUTF8?, dif_pos (String.ofList text).isValidUTF8]
  exact congrArg some String.toList_ofList

end Crystalline.Text
