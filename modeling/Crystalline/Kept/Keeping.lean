import Crystalline.Kept.Files
import Crystalline.Overlay.Journal
import Crystalline.Environment.Origin
import Crystalline.Toon.Render

/-!
# Keeping texts

A text that could not be saved is kept in a file of its own, whose name and folders say
what it is.  The file is named for the file it was kept from and for the time, with a
counter where the name was taken, and a removed domain's folder is named in the same way;
every part is read back from the right, where what may stand in it is known.  A text goes
to a temporary name first and is given its own name by a link, so a name that is taken is
never written over.  A listing reads everything back from the names.
-/

namespace Crystalline.Kept

open Text
open Environment (rsplitOnce)
open Toon (decimal)
open Overlay (segments)

/-- `format(STAMP)` and `NaiveDateTime::parse_from_str(_, STAMP)`. -/
structure Clock (Time : Type) where
  format : Time → Text
  parse : Text → Option Time

/-- The times that are written as fourteen digits, a `T` and a `Z`, and read back to the
second. -/
structure Clock.Reads {Time : Type} (clock : Clock Time) (dated : Time → Prop)
    (toSecond : Time → Time) : Prop where
  parse_format : ∀ time, dated time → clock.parse (clock.format time) = some (toSecond time)
  plain : ∀ time, dated time → ∀ char ∈ clock.format time,
    isAsciiDigit char = true ∨ char = 'T' ∨ char = 'Z'
  marked : ∀ time, dated time → 'T' ∈ clock.format time

def draftDir : Text := "draft".toList

def removedDir : Text := ".removed".toList

def senderSuffix : Text := ".from".toList

def tempSuffix : Text := ".keeping".toList

inductive KeptKind where
  | engram
  | reflection
  | comment
  deriving DecidableEq, Repr

namespace KeptKind

/-- `as_str`. -/
def asStr : KeptKind → Text
  | engram => "engram".toList
  | reflection => "reflection".toList
  | comment => "comment".toList

def fromFolder (name : Text) : Option KeptKind :=
  if name = "engram".toList then some engram
  else if name = "reflection".toList then some reflection
  else if name = "comment".toList then some comment
  else none

theorem fromFolder_eq_some_iff {name : Text} {kind : KeptKind} :
    fromFolder name = some kind ↔ name = kind.asStr := by
  unfold fromFolder
  constructor
  · intro found
    split_ifs at found with first second third <;> cases found <;> assumption
  · rintro rfl
    cases kind <;> decide

theorem asStr_ne_draftDir (kind : KeptKind) : kind.asStr ≠ draftDir := by
  cases kind <;> decide

end KeptKind

variable {Time : Type}

/-- `<name>.<stamp>.md`, or `<name>.<stamp>-<n>.md` from the second on. -/
def keptName (name stamp : Text) (n : Nat) : Text :=
  if n = 1 then name ++ '.' :: stamp ++ ".md".toList
  else name ++ '.' :: stamp ++ '-' :: decimal n ++ ".md".toList

/-- `.<name>.<stamp>.<pid>-<n>.keeping`. -/
def tempName (name stamp : Text) (process count : Nat) : Text :=
  '.' :: name ++ '.' :: stamp ++ '.' :: decimal process ++ '-' :: decimal count ++ tempSuffix

/-- `<domain>-<stamp>`, or `<domain>-<stamp>-<n>` from the second on. -/
def removedName (domain stamp : Text) (n : Nat) : Text :=
  if n = 1 then domain ++ '-' :: stamp
  else domain ++ '-' :: stamp ++ '-' :: decimal n

def isCounter (text : Text) : Bool := !text.isEmpty && text.all isAsciiDigit

def removedDomain (clock : Clock Time) (folder : Text) : Option Text :=
  let folder :=
    match rsplitOnce '-' folder with
    | some (head, n) => if isCounter n then head else folder
    | none => folder
  match rsplitOnce '-' folder with
  | none => none
  | some (domain, stamp) =>
      match clock.parse stamp with
      | none => none
      | some _ => if domain.isEmpty then none else some domain

def parseTempName (clock : Clock Time) (file : Text) : Option (Text × Time) := do
  let rest ← stripPrefix ['.'] file
  let stem ← stripSuffix tempSuffix rest
  let (head, process) ← rsplitOnce '.' stem
  if process.isEmpty || !process.all (fun char => isAsciiDigit char || char = '-') then none
  else
    let (name, stamp) ← rsplitOnce '.' head
    let time ← clock.parse stamp
    if name.isEmpty then none else some (name, time)

def parseName (clock : Clock Time) (file : Text) : Option (Text × Time) := do
  let stem ← stripSuffix ".md".toList file
  let (name, tail) ← rsplitOnce '.' stem
  if name.isEmpty then none
  else
    let (stamp, counter) :=
      match splitOnce ['-'] tail with
      | some (stamp, n) => (stamp, some n)
      | none => (tail, none)
    if counter.any fun n => !isCounter n then none
    else
      let time ← clock.parse stamp
      some (name, time)

theorem rsplitOnce_append {char : Char} (before : Text) {after : Text} (absent : char ∉ after) :
    rsplitOnce char (before ++ char :: after) = some (before, after) := by
  have same : (before ++ char :: after).reverse = after.reverse ++ char :: before.reverse := by
    simp
  rw [rsplitOnce, same, splitOnce_char_append (by simpa using absent)]
  simp

theorem isCounter_decimal (n : Nat) : isCounter (decimal n) = true := by
  have present : decimal n ≠ [] := Nat.toDigits_ne_nil
  have digits : (decimal n).all isAsciiDigit = true := List.all_eq_true.mpr fun char member =>
    Nat.isDigit_of_mem_toDigits (by decide) (by decide) member
  rw [isCounter, digits, List.isEmpty_eq_false_iff.mpr present]
  rfl

theorem notMem_decimal {char : Char} (other : isAsciiDigit char = false) (n : Nat) :
    char ∉ decimal n := by
  intro member
  have digit := Nat.isDigit_of_mem_toDigits (by decide) (by decide) member
  exact absurd (digit.symm.trans other) (by decide)

namespace Clock.Reads

variable {clock : Clock Time} {dated : Time → Prop} {toSecond : Time → Time}
  (reads : clock.Reads dated toSecond) {time : Time} (date : dated time)
include reads date

theorem notMem {char : Char} (other : isAsciiDigit char = false) (noT : char ≠ 'T')
    (noZ : char ≠ 'Z') : char ∉ clock.format time := by
  intro member
  rcases reads.plain time date char member with digit | isT | isZ
  · exact absurd (digit.symm.trans other) (by decide)
  · exact noT isT
  · exact noZ isZ

theorem not_isCounter : isCounter (clock.format time) = false := by
  rw [isCounter, Bool.and_eq_false_iff]
  refine .inr (List.all_eq_false.mpr ⟨'T', reads.marked time date, by decide⟩)

theorem removedDomain_removedName {domain : Text} (present : domain ≠ []) (n : Nat) :
    removedDomain clock (removedName domain (clock.format time) n) = some domain := by
  have dash := reads.notMem date (by decide : isAsciiDigit '-' = false) (by decide) (by decide)
  have bare : rsplitOnce '-' (domain ++ '-' :: clock.format time) =
      some (domain, clock.format time) := rsplitOnce_append domain dash
  have counted : rsplitOnce '-' (domain ++ '-' :: clock.format time ++ '-' :: decimal n) =
      some (domain ++ '-' :: clock.format time, decimal n) :=
    rsplitOnce_append _ (notMem_decimal (by decide) n)
  unfold removedDomain removedName
  split_ifs with first
  · simp only [bare, reads.not_isCounter date, Bool.false_eq_true, if_false,
      reads.parse_format time date, List.isEmpty_eq_false_iff.mpr present]
  · simp only [counted, isCounter_decimal, if_true, bare, reads.parse_format time date,
      List.isEmpty_eq_false_iff.mpr present, Bool.false_eq_true, if_false]

theorem parseName_keptName {name : Text} (present : name ≠ []) (n : Nat) :
    parseName clock (keptName name (clock.format time) n) = some (name, toSecond time) := by
  have dash := reads.notMem date (by decide : isAsciiDigit '-' = false) (by decide) (by decide)
  have dot := reads.notMem date (by decide : isAsciiDigit '.' = false) (by decide) (by decide)
  have suffix (stem : Text) : stripSuffix ".md".toList (stem ++ ".md".toList) = some stem :=
    stripSuffix_eq_some_iff.mpr rfl
  have bare : rsplitOnce '.' (name ++ '.' :: clock.format time) =
      some (name, clock.format time) := rsplitOnce_append name dot
  have tail : '.' ∉ clock.format time ++ '-' :: decimal n := by
    simp [dot, notMem_decimal (by decide : isAsciiDigit '.' = false) n]
  have counted : rsplitOnce '.' (name ++ '.' :: (clock.format time ++ '-' :: decimal n)) =
      some (name, clock.format time ++ '-' :: decimal n) := rsplitOnce_append name tail
  have split : splitOnce ['-'] (clock.format time ++ '-' :: decimal n) =
      some (clock.format time, decimal n) := splitOnce_char_append dash _
  have whole : splitOnce ['-'] (clock.format time) = none :=
    splitOnce_char_eq_none_iff.mpr dash
  unfold parseName keptName
  split_ifs with first
  · simp only [suffix, bare, Option.bind_eq_bind, Option.bind_some, whole,
      List.isEmpty_eq_false_iff.mpr present, Bool.false_eq_true, if_false, Option.any_none,
      reads.parse_format time date]
  · rw [show name ++ '.' :: clock.format time ++ '-' :: decimal n ++ ".md".toList =
      name ++ '.' :: (clock.format time ++ '-' :: decimal n) ++ ".md".toList by simp]
    simp only [suffix, counted, Option.bind_eq_bind, Option.bind_some, split,
      List.isEmpty_eq_false_iff.mpr present, Bool.false_eq_true, if_false, Option.any_some,
      isCounter_decimal, Bool.not_true, reads.parse_format time date]

theorem parseTempName_tempName {name : Text} (present : name ≠ []) (process count : Nat) :
    parseTempName clock (tempName name (clock.format time) process count) =
      some (name, toSecond time) := by
  have dot := reads.notMem date (by decide : isAsciiDigit '.' = false) (by decide) (by decide)
  have tail : '.' ∉ decimal process ++ '-' :: decimal count := by
    simp [notMem_decimal (by decide : isAsciiDigit '.' = false)]
  have named : tempName name (clock.format time) process count =
      ['.'] ++ ((name ++ '.' :: clock.format time) ++
        '.' :: (decimal process ++ '-' :: decimal count) ++ tempSuffix) := by
    simp [tempName]
  have suffix (stem : Text) : stripSuffix tempSuffix (stem ++ tempSuffix) = some stem :=
    stripSuffix_eq_some_iff.mpr rfl
  have processed : ((decimal process ++ '-' :: decimal count).isEmpty ||
      !(decimal process ++ '-' :: decimal count).all
        (fun char => isAsciiDigit char || char = '-')) = false := by
    have digits (n : Nat) : ∀ char ∈ decimal n, isAsciiDigit char = true := fun char member =>
      Nat.isDigit_of_mem_toDigits (by decide) (by decide) member
    have all : (decimal process ++ '-' :: decimal count).all
        (fun char => isAsciiDigit char || char = '-') = true := by
      rw [List.all_eq_true]
      intro char member
      simp only [List.mem_append, List.mem_cons] at member
      rcases member with first | dash | second
      · rw [digits process char first, Bool.true_or]
      · rw [dash]
        decide
      · rw [digits count char second, Bool.true_or]
    have some : decimal process ++ '-' :: decimal count ≠ [] := by simp
    rw [all, List.isEmpty_eq_false_iff.mpr some]
    rfl
  unfold parseTempName
  rw [named]
  simp only [stripPrefix_append, suffix, rsplitOnce_append _ tail, rsplitOnce_append _ dot,
    Option.bind_eq_bind, Option.bind_some, processed, Bool.false_eq_true, if_false,
    reads.parse_format time date, List.isEmpty_eq_false_iff.mpr present]

end Clock.Reads

section

variable {clock : Clock Time} {stem : Text} {last : Char}

theorem parseName_eq_none (other : last ≠ 'd') : parseName clock (stem ++ [last]) = none := by
  have none : stripSuffix ".md".toList (stem ++ [last]) = none := by
    rw [stripSuffix]
    rw [show (stem ++ [last]).reverse = last :: stem.reverse by simp]
    rw [show (".md".toList).reverse = ['d', 'm', '.'] from rfl, stripPrefix, if_neg (Ne.symm other)]
    rfl
  rw [parseName, none]
  rfl

theorem parseTempName_eq_none (other : last ≠ 'g') :
    parseTempName clock (stem ++ [last]) = none := by
  have none (stem : Text) : stripSuffix tempSuffix (stem ++ [last]) = none := by
    rw [stripSuffix, show (stem ++ [last]).reverse = last :: stem.reverse by simp,
      show tempSuffix.reverse = 'g' :: "nipeek.".toList from rfl, stripPrefix,
      if_neg (Ne.symm other)]
    rfl
  rw [parseTempName]
  cases found : stripPrefix ['.'] (stem ++ [last]) with
  | none => rfl
  | some rest =>
      have same := stripPrefix_eq_some_iff.mp found
      rcases List.eq_nil_or_concat rest with rfl | ⟨front, final, rfl⟩
      · rfl
      · rw [List.concat_eq_append, ← List.append_assoc] at same
        obtain rfl := (List.cons.inj (List.append_inj' same rfl).2).1
        rw [List.concat_eq_append]
        simp only [Option.bind_eq_bind, Option.bind_some, none, Option.bind_none]

end

/-- Who sent a kept text. -/
structure Sender where
  account : Text
  name : Text
  deriving DecidableEq, Repr

/-- What this module calls outside it: the calendar, the order of times, `serde_json` on a
sender, and the first characters of a hash in hexadecimal. -/
structure Host (Time : Type) where
  clock : Clock Time
  order : Time → Time → Ordering
  toJson : Sender → Text
  fromJson : Text → Option Sender
  digest : Text → Text

/-- One kept text, as the listing finds it. -/
structure KeptText (Time : Type) where
  id : Text
  domain : Text
  removed : Bool
  unfinished : Bool
  owner : Option Text
  kind : KeptKind
  path : Text
  keptAt : Time
  bytes : Nat
  file : Place
  sender : Option Sender

variable (host : Host Time)

/-- As far as a `u32` counts. -/
def counterEnd : Nat := 4294967295

def openTries : Nat := 5

/-- Whether the owner is no folder name. -/
def refusedOwner (owner : Text) : Bool :=
  owner.isEmpty || owner = ".".toList || owner = "..".toList ||
    owner.any fun char => char ∈ ['/', '\\', ':']

/-- The text at a temporary name.  The folder is made again where it is gone, and a name
that is taken is passed over for the next, a few times. -/
def openTemp (parent : Place) (name stamp : Text) (process : Nat) (text : Text) :
    (tries count : Nat) → Io Place
  | 0, count => do
      let temp := parent ++ [tempName name stamp process count]
      createDirAll parent
      writeNew temp text
      pure temp
  | tries + 1, count => do
      let temp := parent ++ [tempName name stamp process count]
      createDirAll parent
      match ← (writeNew temp text).attempt with
      | .ok () => pure temp
      | .error error =>
          if error = .notFound ∨ error = .alreadyExists then
            openTemp parent name stamp process text tries (count + 1)
          else Io.fail error

/-- Give the file at `temp` its kept name, never over another file.  `links` says of each
try whether the file system makes a link there. -/
def placeFrom (links : Nat → Bool) (temp parent : Place) (name stamp text : Text) :
    (left n : Nat) → Io Place
  | 0, _ => Io.fail .other
  | left + 1, n => do
      let file := parent ++ [keptName name stamp n]
      match ← (Io.step (Files.hardLink (links n) temp file)).attempt with
      | .ok () => pure file
      | .error .alreadyExists => placeFrom links temp parent name stamp text left (n + 1)
      | .error _ =>
          match ← (writeNew file text).attempt with
          | .ok () => pure file
          | .error .alreadyExists => placeFrom links temp parent name stamp text left (n + 1)
          | .error error => Io.fail error

def place (links : Nat → Bool) (temp parent : Place) (name stamp text : Text) : Io Place :=
  placeFrom links temp parent name stamp text counterEnd 1

/-- The folder of a domain's own texts, or of an owner's. -/
def baseOf (domain : Text) (owner : Option Text) : Place :=
  match owner with
  | none => [domain]
  | some owner => [domain, draftDir, owner]

/-- The place that `path`, a path inside the domain, has in the kept folder. -/
def placeOf (domain : Text) (owner : Option Text) (kind : KeptKind) (path : Text) : Place :=
  baseOf domain owner ++ [kind.asStr] ++ segments path

/-- `write`, in the process `process` whose next counter is `count`. -/
def write (process count : Nat) (links : Nat → Bool) (domain : Text) (owner : Option Text)
    (kind : KeptKind) (path : Text) (time : Time) (text : Text) : Io Place :=
  if owner.any refusedOwner then Io.fail .invalidInput
  else do
    let base := placeOf domain owner kind path
    let stamp := host.clock.format time
    let name := base.getLastD []
    let parent := base.dropLast
    let temp ← openTemp parent name stamp process text openTries count
    let placed ← (place links temp parent name stamp text).attempt
    let _ ← (Io.step (Files.removeFile temp)).attempt
    Io.ofExcept placed

/-- A place with more at the end of its name. -/
def appendName (place : Place) (suffix : Text) : Place :=
  place.dropLast ++ [place.getLastD [] ++ suffix]

/-- The file beside a kept text that names its sender. -/
def senderFile (file : Place) : Place := appendName file senderSuffix

def recordSender (process count : Nat) (file : Place) (sender : Sender) : Io Unit := do
  let target := senderFile file
  let temp := appendName target ('.' :: decimal process ++ '-' :: decimal count ++ tempSuffix)
  let written ← (do
    writeNew temp (host.toJson sender)
    Io.step (Files.renameFile temp target)).attempt
  match written with
  | .ok () => pure ()
  | .error error => do
      let _ ← (Io.step (Files.removeFile temp)).attempt
      Io.fail error

/-- The first free name for a removed domain's texts. -/
def setAsideFrom (source : Place) (domain stamp : Text) : (left n : Nat) → Io (Option Place)
  | 0, _ => Io.fail .other
  | left + 1, n => do
      let target := [removedDir, removedName domain stamp n]
      if ← Io.reads (fun files => (files.node target).isSome) then
        setAsideFrom source domain stamp left (n + 1)
      else do
        Io.step (Files.renameFolder source target)
        pure (some target)

def setAside (domain : Text) (time : Time) : Io (Option Place) := do
  if domain.isEmpty || startsWith domain ['.'] || domain.any (fun char => char ∈ ['/', '\\']) ||
      !(← Io.reads fun files => decide (files.IsFolder [domain])) then
    pure none
  else do
    createDirAll [removedDir]
    setAsideFrom [domain] domain (host.clock.format time) counterEnd 1

structure Entry where
  name : Text
  path : Place
  isDir : Bool
  isFile : Bool
  len : Nat
  /-- Whether it last changed long enough ago. -/
  idle : Bool

variable (idle : Place → Bool) (files : Files)

/-- The names of what stands in a folder. -/
def namesIn (dir : Place) : List Text :=
  ((files.places.filter fun place =>
    place ≠ [] && decide (place.dropLast = dir) && (files.node place).isSome).map
      (·.getLastD [])).dedup

def entryAt (place : Place) : Entry where
  name := place.getLastD []
  path := place
  isDir := decide (files.node place = some .folder)
  isFile := (files.text? place).isSome
  len := ((files.text? place).map fun text => (bytes text).length).getD 0
  idle := idle place

/-- The entries of a folder, by name. -/
def dirEntries (dir : Place) : List Entry :=
  ((namesIn files dir).insertionSort fun left right => ¬ right < left).map fun name =>
    entryAt idle files (dir ++ [name])

def readSender (file : Place) : Option Sender :=
  (files.text? (senderFile file)).bind host.fromJson

/-- Where a scan is: the domain, whether it was removed, whose draft folder, and that
folder's path inside the kept folder. -/
structure DomainFolder where
  name : Text
  removed : Bool
  owner : Option Text
  within : Text

/-- Which kind folder a walk is in. -/
structure KindFolder where
  folder : DomainFolder
  kind : KeptKind

def KindFolder.rel (place : KindFolder) (rel : Text) : Text :=
  place.folder.within ++ '/' :: place.kind.asStr ++ '/' :: rel

/-- A path one name further. -/
def childOf (rel name : Text) : Text := if rel.isEmpty then name else rel ++ '/' :: name

/-- The name and the time a file's name gives, and whether it is an unfinished keep's. -/
def nameGiven (entry : Entry) : Option (Text × Time × Bool) :=
  match parseName host.clock entry.name with
  | some (name, keptAt) => some (name, keptAt, false)
  | none =>
      match parseTempName host.clock entry.name with
      | some (name, keptAt) => if entry.idle then some (name, keptAt, true) else none
      | none => none

def walkFile (place : KindFolder) (rel : Text) (entry : Entry) : List (KeptText Time) :=
  match nameGiven host entry with
  | none => []
  | some (name, keptAt, unfinished) => [{
      id := host.digest (place.rel (childOf rel entry.name))
      domain := place.folder.name
      removed := place.folder.removed
      unfinished
      owner := place.folder.owner
      kind := place.kind
      path := childOf rel name
      keptAt
      bytes := entry.len
      file := entry.path
      sender := readSender host files entry.path }]

/-- Every kept file under a folder, as deep as the tree goes. -/
def walk (place : KindFolder) : (deep : Nat) → (dir : Place) → (rel : Text) →
    List (KeptText Time)
  | 0, _, _ => []
  | deep + 1, dir, rel =>
      (dirEntries idle files dir).flatMap fun entry =>
        if entry.isDir then walk place deep entry.path (childOf rel entry.name)
        else if !entry.isFile then []
        else walkFile host files place rel entry

/-- How deep the tree goes. -/
def depth : Nat := files.places.foldr (fun place deep => max place.length deep) 0

def scanKinds (folder : DomainFolder) (dir : Place) : List (KeptText Time) :=
  (dirEntries idle files dir).flatMap fun entry =>
    match KeptKind.fromFolder entry.name with
    | none => []
    | some kind =>
        if entry.isDir then walk host idle files ⟨folder, kind⟩ (depth files) entry.path []
        else []

def scanDomain (domain : Text) (removed : Bool) (within : Text) (dir : Place) :
    List (KeptText Time) :=
  ((dirEntries idle files dir).flatMap fun entry =>
    if entry.isDir && decide (entry.name = draftDir) then
      (dirEntries idle files entry.path).flatMap fun owner =>
        if owner.isDir then
          scanKinds host idle files
            ⟨domain, removed, some owner.name, within ++ '/' :: draftDir ++ '/' :: owner.name⟩
            owner.path
        else []
    else []) ++
    scanKinds host idle files ⟨domain, removed, none, within⟩ dir

def textOrder (left right : Text) : Ordering :=
  if left < right then .lt else if right < left then .gt else .eq

def ownerOrder : Option Text → Option Text → Ordering
  | none, none => .eq
  | none, some _ => .lt
  | some _, none => .gt
  | some left, some right => textOrder left right

def kindRank : KeptKind → Nat
  | .engram => 0
  | .reflection => 1
  | .comment => 2

def placeOrder : Place → Place → Ordering
  | [], [] => .eq
  | [], _ :: _ => .lt
  | _ :: _, [] => .gt
  | left :: lefts, right :: rights => (textOrder left right).then (placeOrder lefts rights)

/-- Oldest first, then by domain, owner, kind and path. -/
def keptOrder (left right : KeptText Time) : Ordering :=
  (host.order left.keptAt right.keptAt).then <| (textOrder left.domain right.domain).then <|
    (ownerOrder left.owner right.owner).then <|
      (compare (kindRank left.kind) (kindRank right.kind)).then <|
        (textOrder left.path right.path).then (placeOrder left.file right.file)

/-- What the folder of a name in the kept folder holds. -/
def scanEntry (entry : Entry) : List (KeptText Time) :=
  if !entry.isDir then []
  else if entry.name = removedDir then
    (dirEntries idle files entry.path).flatMap fun folder =>
      match if folder.isDir then removedDomain host.clock folder.name else none with
      | some domain =>
          scanDomain host idle files domain true (removedDir ++ '/' :: folder.name) folder.path
      | none => []
  else if !startsWith entry.name ['.'] then
    scanDomain host idle files entry.name false entry.name entry.path
  else []

/-- Every kept text. -/
def scan : List (KeptText Time) :=
  ((dirEntries idle files []).flatMap (scanEntry host idle files)).insertionSort
    fun left right => keptOrder host left right ≠ .gt

end Crystalline.Kept
