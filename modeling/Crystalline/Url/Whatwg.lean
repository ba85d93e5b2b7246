import Crystalline.Text.Pieces
import Crystalline.Text.Bytes

/-!
# What an http address reads as

Cleaning stops at every character that is not stripped, so the scheme and what
follows it are cleaned apart.  A path of plain segments is read as it is
written.
-/

namespace Crystalline.Whatwg

open Text

/-- A C0 control or a space: stripped at both ends. -/
def isC0ControlOrSpace (char : Char) : Bool := char.toNat ≤ 0x20

/-- An ASCII tab or newline: dropped wherever it stands. -/
def isTabOrNewline (char : Char) : Bool := char ∈ ['\t', '\n', '\r']

/-- The end of the input as the parser runs over it. -/
def tidyEnd (text : Text) : Text :=
  (trimEndMatches isC0ControlOrSpace text).filter fun char => !isTabOrNewline char

/-- The start of the input as the parser runs over it. -/
def tidyStart (text : Text) : Text :=
  (trimStartMatches isC0ControlOrSpace text).filter fun char => !isTabOrNewline char

/-- The input as the parser runs over it. -/
def tidy (text : Text) : Text := tidyEnd (trimStartMatches isC0ControlOrSpace text)

def toAsciiLowercase (char : Char) : Char :=
  if isAsciiUppercase char then Char.ofNat (char.toNat + 32) else char

/-- What the scheme state takes in. -/
def isScheme (text : Text) : Bool :=
  (text.head?.any fun char => isAsciiLowercase char || isAsciiUppercase char) &&
    text.all fun char => isAsciiAlphanumeric char || char ∈ ['+', '-', '.']

/-- The scheme, lower-case, and what follows its colon. -/
def schemeOf (input : Text) : Option (Text × Text) :=
  (splitOnce [':'] input).bind fun parts =>
    if isScheme parts.1 then some (parts.1.map toAsciiLowercase, parts.2) else none

def isHttp (scheme : Text) : Bool := scheme ∈ ["http".toList, "https".toList]

/-- A slash of a special address. -/
def isSlash (char : Char) : Bool := char ∈ ['/', '\\']

/-- A character that ends the path. -/
def endsPath (char : Char) : Bool := char ∈ ['?', '#']

/-- A character that ends the authority of a special address. -/
def endsAuthority (char : Char) : Bool := isSlash char || endsPath char

/-- A single-dot path segment. -/
def isSingleDot (segment : Text) : Bool :=
  segment.map toAsciiLowercase ∈ [".".toList, "%2e".toList]

/-- A double-dot path segment. -/
def isDoubleDot (segment : Text) : Bool :=
  segment.map toAsciiLowercase ∈
    ["..".toList, ".%2e".toList, "%2e.".toList, "%2e%2e".toList]

/-- The path percent-encode set. -/
def inPathSet (char : Char) : Bool :=
  char.toNat ≤ 0x1F || 0x7E < char.toNat ||
    char ∈ [' ', '"', '#', '<', '>', '?', '^', '\x60', '\x7b', '\x7d']

def hexDigit (digit : Nat) : Char :=
  Char.ofNat (if digit < 10 then 0x30 + digit else 0x37 + digit)

/-- UTF-8 percent-encode a character with the path set. -/
def encode (char : Char) : Text :=
  if inPathSet char then
    (toUtf8 [char]).flatMap fun byte =>
      ['%', hexDigit (byte.toNat / 16), hexDigit (byte.toNat % 16)]
  else [char]

/-- A segment as it is kept. -/
def kept (segment : Text) : Text := segment.flatMap encode

/-- The path state, segment by segment, over the path built so far.  A dot
segment is told before it is encoded: the encoding leaves all of its characters
as they are and writes none of them anew. -/
def resolve (path : List Text) : List Text → List Text
  | [] => path
  | [last] =>
      if isDoubleDot last then path.dropLast ++ [[]]
      else if isSingleDot last then path ++ [[]]
      else path ++ [kept last]
  | segment :: next :: rest =>
      resolve
        (if isDoubleDot segment then path.dropLast
          else if isSingleDot segment then path
          else path ++ [kept segment])
        (next :: rest)

/-- The path written by what follows the authority, serialised. -/
def pathOf (tail : Text) : Text :=
  joined '/' (resolve []
    (splitMatches isSlash (tail.takeWhile fun char => !endsPath char).tail))

/-- What follows the slashes the parser skips. -/
def afterSlashes (rest : Text) : Text := rest.dropWhile isSlash

def authorityOf (rest : Text) : Text :=
  (afterSlashes rest).takeWhile fun char => !endsAuthority char

def afterAuthority (rest : Text) : Text :=
  (afterSlashes rest).dropWhile fun char => !endsAuthority char

/-- What is told of an http address before its host is parsed. -/
structure Address where
  scheme : Text
  authority : Text
  path : Text

/-- The address a text writes; an empty authority is a failure. -/
def readHttp (text : Text) : Option Address :=
  (schemeOf (tidy text)).bind fun parts =>
    if isHttp parts.1 && authorityOf parts.2 ≠ [] then
      some ⟨parts.1, authorityOf parts.2, pathOf (afterAuthority parts.2)⟩
    else none

section Tidy

variable {char : Char}

/-- The input without its tabs and newlines. -/
def withoutBreaks (text : Text) : Text := text.filter fun char => !isTabOrNewline char

theorem isTabOrNewline_of_visible (visible : isC0ControlOrSpace char = false) :
    isTabOrNewline char = false := by
  rw [isTabOrNewline, decide_eq_false_iff_not]
  intro member
  simp only [List.mem_cons, List.not_mem_nil, or_false] at member
  rcases member with rfl | rfl | rfl <;> exact absurd visible (by decide)

theorem tidyEnd_append_cons (visible : isC0ControlOrSpace char = false) (before after : Text) :
    tidyEnd (before ++ char :: after) =
      withoutBreaks before ++ char :: tidyEnd after := by
  rw [tidyEnd, trimEndMatches, rdropWhile_append_cons visible, List.filter_append,
    List.filter_cons_of_pos (by simp [isTabOrNewline_of_visible visible])]
  rfl

variable {text : Text}

theorem tidyEnd_of_visible (visible : ∀ char ∈ text, isC0ControlOrSpace char = false) :
    tidyEnd text = text := by
  induction text with
  | nil => rfl
  | cons char text induction =>
      have tail := induction fun later member => visible later (List.mem_cons_of_mem _ member)
      have whole := tidyEnd_append_cons (visible char List.mem_cons_self) [] text
      rw [tail] at whole
      exact whole

theorem mem_of_mem_tidyEnd (member : char ∈ tidyEnd text) : char ∈ text :=
  (List.rdropWhile_prefix _ _).subset (List.mem_of_mem_filter member)

theorem mem_of_mem_tidyStart (member : char ∈ tidyStart text) : char ∈ text :=
  (List.dropWhile_suffix _).subset (List.mem_of_mem_filter member)

theorem mem_of_mem_withoutBreaks (member : char ∈ withoutBreaks text) : char ∈ text :=
  List.mem_of_mem_filter member

theorem tidy_colon (before after : Text) :
    tidy (before ++ ':' :: after) = tidyStart before ++ ':' :: tidyEnd after := by
  have visible : isC0ControlOrSpace ':' = false := by decide
  have starts : trimStartMatches isC0ControlOrSpace (before ++ ':' :: after) =
      trimStartMatches isC0ControlOrSpace before ++ ':' :: after := by
    rw [trimStartMatches, trimStartMatches, List.dropWhile_append]
    split
    · next empty =>
        rw [List.isEmpty_iff.mp empty]
        simp [visible]
    · rfl
  rw [tidy, starts, tidyEnd_append_cons visible]
  rfl

theorem schemeOf_tidy {before : Text} (absent : ':' ∉ before) (after : Text) :
    schemeOf (tidy (before ++ ':' :: after)) =
      if isScheme (tidyStart before) then
        some ((tidyStart before).map toAsciiLowercase, tidyEnd after)
      else none := by
  have clean : ':' ∉ tidyStart before := fun member => absent (mem_of_mem_tidyStart member)
  rw [tidy_colon, schemeOf, splitOnce_char_append clean]
  rfl

end Tidy

section Paths

/-- A segment that is read as it is written. -/
structure IsPlain (segment : Text) : Prop where
  single : isSingleDot segment = false
  double : isDoubleDot segment = false
  kept : kept segment = segment

theorem isPlain_nil : IsPlain [] := ⟨by decide, by decide, rfl⟩

theorem resolve_cons_cons (path : List Text) (segment next : Text) (rest : List Text) :
    resolve path (segment :: next :: rest) =
      resolve
        (if isDoubleDot segment then path.dropLast
          else if isSingleDot segment then path
          else path ++ [kept segment])
        (next :: rest) := rfl

variable {segments : List Text}

theorem resolve_plain (plain : ∀ segment ∈ segments, IsPlain segment) (path : List Text) :
    resolve path segments = path ++ segments := by
  induction segments generalizing path with
  | nil => simp [resolve]
  | cons segment segments induction =>
      have head := plain segment List.mem_cons_self
      have tail := fun later member => plain later (List.mem_cons_of_mem _ member)
      cases segments with
      | nil => simp [resolve, head.single, head.double, head.kept]
      | cons next rest =>
          rw [resolve_cons_cons, head.double, if_neg Bool.false_ne_true, head.single,
            if_neg Bool.false_ne_true, induction tail, head.kept]
          simp

theorem resolve_append (segments path : List Text) (next : Text) (rest : List Text) :
    ∃ before, resolve path (segments ++ next :: rest) = resolve before (next :: rest) := by
  induction segments generalizing path with
  | nil => exact ⟨path, rfl⟩
  | cons segment segments induction =>
      cases segments with
      | nil => exact ⟨_, resolve_cons_cons path segment next rest⟩
      | cons second segments =>
          rw [List.cons_append, List.cons_append, resolve_cons_cons]
          exact induction _

variable {segment : Text}

theorem resolve_doubleDot (dots : isDoubleDot segment = true)
    (plain : ∀ later ∈ segments, IsPlain later) (path : List Text) (last : Text) :
    resolve (path ++ [last]) (segment :: segments) =
      path ++ if segments = [] then [[]] else segments := by
  cases segments with
  | nil => simp [resolve, dots]
  | cons next rest =>
      rw [resolve_cons_cons, dots, if_pos rfl, List.dropLast_concat, resolve_plain plain,
        if_neg (by simp)]

theorem resolve_not_doubleDot (other : isDoubleDot segment = false)
    (plain : ∀ later ∈ segments, IsPlain later) (path : List Text) :
    ∃ next rest, resolve path (segment :: segments) = path ++ next :: rest := by
  cases segments with
  | nil =>
      cases single : isSingleDot segment with
      | true => exact ⟨[], [], by simp [resolve, other, single]⟩
      | false => exact ⟨kept segment, [], by simp [resolve, other, single]⟩
  | cons next rest =>
      rw [resolve_cons_cons, other, if_neg Bool.false_ne_true, resolve_plain plain]
      cases isSingleDot segment with
      | true => exact ⟨next, rest, rfl⟩
      | false => exact ⟨kept segment, next :: rest, by simp⟩

/-- A text without the characters that cut an address. -/
def IsUncut (text : Text) : Prop := ∀ char ∈ text, endsAuthority char = false

theorem pathOf_joined (notEmpty : segments ≠ []) (uncut : ∀ inside ∈ segments, IsUncut inside) :
    pathOf (joined '/' segments) = joined '/' (resolve [] segments) := by
  obtain ⟨segment, segments, rfl⟩ := List.exists_cons_of_ne_nil notEmpty
  have inside : ∀ char ∈ joined '/' (segment :: segments), endsPath char = false ∧
      isSlash char = (char == '/') := by
    intro char member
    obtain ⟨piece, piecesMember, held⟩ := List.mem_flatMap.mp member
    rcases List.mem_cons.mp held with rfl | held
    · decide
    · have free := uncut piece piecesMember char held
      rw [endsAuthority, Bool.or_eq_false_iff] at free
      refine ⟨free.2, free.1.trans ?_⟩
      rw [eq_comm, beq_eq_false_iff_ne]
      rintro rfl
      exact absurd free.1 (by decide)
  have whole : (joined '/' (segment :: segments)).takeWhile (fun char => !endsPath char) =
      joined '/' (segment :: segments) := by
    rw [List.takeWhile_eq_self_iff]
    intro char member
    rw [(inside char member).1]
    rfl
  have absent : ∀ piece ∈ segment :: segments, '/' ∉ piece := by
    intro piece member held
    exact absurd (uncut piece member '/' held) (by decide)
  have pieces : splitMatches isSlash (segment ++ joined '/' segments) = segment :: segments := by
    have oneSlash : splitMatches isSlash (segment ++ joined '/' segments) =
        splitMatches (· == '/') (segment ++ joined '/' segments) :=
      splitMatches_congr fun char member => (inside char (List.mem_cons_of_mem _ member)).2
    rw [oneSlash, splitMatches_joined absent]
  rw [pathOf, whole, joined_cons, List.cons_append, List.tail_cons, pieces]

theorem afterSlashes_of_head {rest : Text}
    (head : ∀ char, rest.head? = some char → isSlash char = false) :
    afterSlashes rest = rest := by
  cases rest with
  | nil => rfl
  | cons char rest => simp [afterSlashes, head char rfl]

theorem authorityOf_append {authority tail : Text} (uncut : IsUncut authority)
    (head : ∀ char, tail.head? = some char → endsAuthority char = true)
    {rest : Text} (slashes : afterSlashes rest = authority ++ tail) :
    authorityOf rest = authority ∧ afterAuthority rest = tail := by
  have ends : tail.takeWhile (fun char => !endsAuthority char) = [] ∧
      tail.dropWhile (fun char => !endsAuthority char) = tail := by
    cases tail with
    | nil => exact ⟨rfl, rfl⟩
    | cons char tail => simp [head char rfl]
  have through : ∀ char ∈ authority, (!endsAuthority char) = true := by
    intro char member
    rw [uncut char member]
    rfl
  rw [authorityOf, afterAuthority, slashes, List.takeWhile_append_of_pos through,
    List.dropWhile_append_of_pos through, ends.1, ends.2, List.append_nil]
  exact ⟨rfl, rfl⟩

end Paths

end Crystalline.Whatwg
