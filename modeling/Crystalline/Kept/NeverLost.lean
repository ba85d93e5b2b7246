import Crystalline.Kept.Runs

/-!
# No kept text is lost

After every run of calls a listing shows each text once, as what it was kept for.  A keep
that is cut off adds at most one finished text, its own.
-/

namespace Crystalline.Kept

open Text
open Names (isDomainName)
open Overlay (isWithinDomain)

section General

variable {Time : Type} {host : Host Time} {dated : Time → Prop} {toSecond : Time → Time}
  {isAlphanumeric : Char → Bool}

theorem holds_empty : Holds host dated isAlphanumeric Files.empty [] :=
  ⟨nofun, List.nodup_nil, nofun, nofun, fun _ some => absurd rfl some⟩

theorem baseOf_eq (domain : Text) (owner : Option Text) :
    baseOf domain owner = [domain] ++ ownerPart owner := by
  cases owner <;> rfl

variable {domain : Text} {owner : Option Text} {kind : KeptKind} {files : Files}
  {keeps : List (Keep Time)}

theorem stands_of_write {path : Text} {time : Time}
    (named : isDomainName isAlphanumeric domain = true) (within : isWithinDomain path = true)
    (date : dated time) (text : Text) (number : Nat) :
    (⟨domain, owner, kind, path, time, text, false, none,
      keptPlace (placeOf domain owner kind path) (host.clock.format time) number⟩ :
        Keep Time).Stands host dated isAlphanumeric := by
  refine ⟨named, within, date, [domain], domain, number,
    .own (plain_of_isDomainName named).2.1, ?_⟩
  rw [placeOf, baseOf_eq]

theorem Run.holds (reads : host.clock.Reads dated toSecond) (slash : isAlphanumeric '/' = false)
    (backslash : isAlphanumeric '\\' = false) (run : Run host dated isAlphanumeric files keeps) :
    Holds host dated isAlphanumeric files keeps := by
  induction run with
  | start => exact holds_empty
  | @write files keeps run process count links domain owner kind path time text file named within
      date kept holds =>
      obtain ⟨⟨number, rfl⟩, has⟩ :=
        (@write_meets Time host files _ _ process count links domain owner kind path time text rfl
          rfl).of_ok kept
      exact holds.write (stands_of_write named within date text number) rfl has
  | recordSender run process count member standing sender holds =>
      exact holds.recordSender process count member sender
  | setAside run domain time date holds =>
      exact holds.setAside reads slash backslash domain date

/-- A text is listed as what it was kept for. -/
structure Keep.Shown (toSecond : Time → Time) (keep : Keep Time) (kept : KeptText Time) :
    Prop where
  domain : kept.domain = keep.domain
  removed : kept.removed = keep.removed
  finished : kept.unfinished = false
  owner : kept.owner = keep.owner
  kind : kept.kind = keep.kind
  path : kept.path = keep.path
  keptAt : kept.keptAt = toSecond keep.time
  bytes : kept.bytes = (Text.bytes keep.text).length
  file : kept.file = keep.file
  sender : kept.sender = keep.sender

/-- What a scan lists is each text once, and the rest. -/
def Lists (toSecond : Time → Time) (scanned : List (KeptText Time)) (keeps : List (Keep Time))
    (rest : List (KeptText Time)) : Prop :=
  ∃ listed, scanned.Perm (listed ++ rest) ∧
    List.Forall₂ (fun kept keep => Keep.Shown toSecond keep kept) listed keeps

theorem exists_shown (reads : host.clock.Reads dated toSecond)
    (json : ∀ sender, host.fromJson (host.toJson sender) = some sender) {keep : Keep Time}
    (stands : keep.Stands host dated isAlphanumeric) (text : files.text? keep.file = some keep.text)
    (sender : files.text? (senderFile keep.file) = keep.sender.map host.toJson)
    (idle : Place → Bool) : ∃ kept ∈ scan host idle files, keep.Shown toSecond kept := by
  obtain ⟨top, within, above, last, number, top_, parted, named, file⟩ := stands.exists_parts
  have present : last ≠ [] := named last (by simp)
  have given : nameGiven host (entryAt idle files (top ++ ownerPart keep.owner ++
      [keep.kind.asStr] ++ above ++ [keptName last (host.clock.format keep.time) number])) =
        some (last, toSecond keep.time, false) := by
    rw [nameGiven, entryAt_name, reads.parseName_keptName stands.date present]
  have only : ∃ kept, walkFile host files
      ⟨⟨keep.domain, keep.removed, keep.owner, ownerWithin within keep.owner⟩, keep.kind⟩
      (relOf [] above) (entryAt idle files (top ++ ownerPart keep.owner ++ [keep.kind.asStr] ++
        above ++ [keptName last (host.clock.format keep.time) number])) = [kept] ∧
        keep.Shown toSecond kept := by
    rw [walkFile, given]
    refine ⟨_, rfl, rfl, rfl, rfl, rfl, rfl, childOf_relOf parted named, rfl, ?_, file.symm, ?_⟩
    · change ((files.text? _).map fun text => (Text.bytes text).length).getD 0 = _
      rw [← file, text]
      rfl
    · change (files.text? (senderFile _)).bind host.fromJson = _
      rw [entryAt_path, ← file, sender]
      cases keep.sender with
      | none => rfl
      | some sender => exact json sender
  obtain ⟨kept, only, shown⟩ := only
  refine ⟨kept, mem_scan.mpr ⟨_, _, above, .intro top_ keep.owner keep.kind,
    keptName last (host.clock.format keep.time) number, ?_, ?_⟩, shown⟩
  · rw [← file, text]
    exact Option.some_ne_none _
  · rw [only]
    exact List.mem_singleton_self kept

section

variable {idle : Place → Bool} {files : Files}

theorem exists_lists {keeps : List (Keep Time)} (distinct : (keeps.map Keep.file).Nodup)
    (each : ∀ keep ∈ keeps, ∃ kept ∈ scan host idle files, keep.Shown toSecond kept) :
    Lists toSecond (scan host idle files) keeps
      ((scan host idle files).filter fun kept => kept.file ∉ keeps.map Keep.file) := by
  have listed : ∃ listed : List (KeptText Time), (∀ kept ∈ listed, kept ∈ scan host idle files) ∧
      List.Forall₂ (fun kept keep => Keep.Shown toSecond keep kept) listed keeps := by
    clear distinct
    induction keeps with
    | nil => exact ⟨[], nofun, .nil⟩
    | cons keep keeps induction =>
        obtain ⟨kept, found, shown⟩ := each keep List.mem_cons_self
        obtain ⟨listed, among, all⟩ := induction fun other member =>
          each other (List.mem_cons_of_mem _ member)
        exact ⟨kept :: listed, List.forall_mem_cons.mpr ⟨found, among⟩, .cons shown all⟩
  obtain ⟨listed, among, all⟩ := listed
  have files_ : listed.map KeptText.file = keeps.map Keep.file := by
    clear among distinct each
    induction all with
    | nil => rfl
    | cons shown _ induction => rw [List.map_cons, List.map_cons, shown.file, induction]
  have once := @nodup_scan Time host idle files
  have nodup : ((listed ++ (scan host idle files).filter fun kept =>
      kept.file ∉ keeps.map Keep.file).map KeptText.file).Nodup := by
    rw [List.map_append, files_]
    refine List.nodup_append.mpr ⟨distinct, once.sublist (List.filter_sublist.map _), ?_⟩
    intro file first other second same
    obtain ⟨kept, member, rfl⟩ := List.mem_map.mp second
    have outside := (List.mem_filter.mp member).2
    exact of_decide_eq_true outside (same ▸ first)
  refine ⟨listed, ?_, all⟩
  rw [List.perm_ext_iff_of_nodup once.of_map nodup.of_map]
  intro kept
  rw [List.mem_append, List.mem_filter, decide_eq_true_eq]
  constructor
  · intro found
    by_cases inside : kept.file ∈ keeps.map Keep.file
    · rw [← files_] at inside
      obtain ⟨twin, member, same⟩ := List.mem_map.mp inside
      exact .inl (List.inj_on_of_nodup_map once (among twin member) found same ▸ member)
    · exact .inr ⟨found, inside⟩
  · rintro (inside | ⟨found, -⟩)
    · exact among kept inside
    · exact found

theorem text_of_mem_scan {kept : KeptText Time} (found : kept ∈ scan host idle files) :
    files.text? kept.file ≠ none := by
  obtain ⟨place, dir, above, -, name, text, listed⟩ := mem_scan.mp found
  rw [file_walkFile listed]
  exact text

end

theorem Holds.file_of_mem_scan (holds : Holds host dated isAlphanumeric files keeps) {place : Place}
    (text : files.text? place ≠ none) (isKept : lastChar place = some 'd') :
    place ∈ keeps.map Keep.file := by
  obtain ⟨keep, member, file | sender⟩ := holds.only place text
  · exact file ▸ List.mem_map_of_mem member
  · rw [sender, lastChar_senderFile] at isKept
    cases isKept

theorem Holds.lists (reads : host.clock.Reads dated toSecond)
    (json : ∀ sender, host.fromJson (host.toJson sender) = some sender)
    (holds : Holds host dated isAlphanumeric files keeps) (idle : Place → Bool) :
    Lists toSecond (scan host idle files) keeps [] := by
  have lists := exists_lists holds.distinct fun keep member =>
    exists_shown reads json (holds.stands keep member) (holds.texts keep member)
      (holds.senders keep member) idle
  have none : (scan host idle files).filter (fun kept => kept.file ∉ keeps.map Keep.file) =
      [] := by
    rw [List.filter_eq_nil_iff]
    intro kept found
    have text := text_of_mem_scan found
    rw [decide_eq_true_eq, not_not]
    rcases lastChar_of_mem_scan found with ⟨isKept, -⟩ | ⟨isTemp, -⟩
    · exact holds.file_of_mem_scan text isKept
    · exact absurd (holds.text?_eq_none (by rw [isTemp]; decide) (by rw [isTemp]; decide)) text
  rwa [none] at lists

/-- What a keep that is cut off may add to a listing: its own text, or a part of it, once,
and what is unfinished. -/
structure CutOff (toSecond : Time → Time) (domain : Text) (owner : Option Text) (kind : KeptKind)
    (path : Text) (time : Time) (rest : List (KeptText Time)) : Prop where
  once : (rest.filter fun kept => !kept.unfinished).length ≤ 1
  own : ∀ kept ∈ rest, kept.unfinished = true ∨
    ∃ part, (⟨domain, owner, kind, path, time, part, false, none, kept.file⟩ : Keep Time).Shown
      toSecond kept

theorem length_le_one {α : Type} {items : List α} (nodup : items.Nodup)
    (same : ∀ item ∈ items, ∀ other ∈ items, item = other) : items.length ≤ 1 := by
  match items, nodup with
  | [], _ => exact Nat.zero_le 1
  | [_], _ => exact Nat.le_refl 1
  | first :: second :: _, nodup =>
      have apart := (List.nodup_cons.mp nodup).1
      exact absurd (same first List.mem_cons_self second (by simp) ▸ List.mem_cons_self) apart

theorem Holds.cutOff (reads : host.clock.Reads dated toSecond)
    (json : ∀ sender, host.fromJson (host.toJson sender) = some sender)
    (holds : Holds host dated isAlphanumeric files keeps) (process count : Nat) (links : Nat → Bool)
    {path : Text} {time : Time} (text : Text) (named : isDomainName isAlphanumeric domain = true)
    (within : isWithinDomain path = true) (date : dated time) {state : Files} (member : state ∈
      (Kept.write host process count links domain owner kind path time text files).passed) :
    (∀ keep ∈ keeps, state.text? keep.file = some keep.text) ∧
      ∀ idle, ∃ rest, Lists toSecond (scan host idle state) keeps rest ∧
        CutOff toSecond domain owner kind path time rest := by
  obtain ⟨number, grows⟩ := (@write_meets Time host files _ _ process count links domain owner kind
    path time text rfl rfl).1 state member
  have stands (part : Text) := @stands_of_write Time host dated isAlphanumeric domain owner kind
    path time named within date part number
  have isKept := (stands []).lastChar
  have present := (stands []).file_ne_nil
  generalize keptPlace (placeOf domain owner kind path) (host.clock.format time) number = file
    at grows stands isKept present
  have isTemp {place : Place} (temp : IsTemp (placeOf domain owner kind path)
      (host.clock.format time) process place) : lastChar place = some 'g' := by
    obtain ⟨tried, rfl⟩ := temp
    exact lastChar_temp ..
  simp only at isKept present
  have texts : ∀ keep ∈ keeps, state.text? keep.file = some keep.text := by
    intro keep among
    have text := holds.texts keep among
    rw [grows.text (node_of_text (by rw [text]; exact nofun)).1, text]
  have senders (other : Place) : state.text? (senderFile other) =
      files.text? (senderFile other) := by
    apply grows.text?_eq
    rintro (temp | same)
    · have isTemp := isTemp temp
      rw [lastChar_senderFile] at isTemp
      cases isTemp
    · rw [← same, lastChar_senderFile] at isKept
      cases isKept
  refine ⟨texts, fun idle => ⟨_, exists_lists holds.distinct fun keep among =>
    exists_shown reads json (holds.stands keep among) (texts keep among)
      ((senders keep.file).trans (holds.senders keep among)) idle, ?_⟩⟩
  -- what is finished and no text of before stands at the name that was free
  have new {kept : KeptText Time} (found : kept ∈ scan host idle state)
      (outside : kept.file ∉ keeps.map Keep.file) (finished : kept.unfinished = false) :
      kept.file = file ∧ files.node file = none := by
    have text := text_of_mem_scan found
    rcases lastChar_of_mem_scan found with ⟨named, -⟩ | ⟨-, unfinished⟩
    · by_cases old : files.node kept.file = none
      · rcases grows.new kept.file old text with temp | same
        · rw [isTemp temp] at named
          cases named
        · exact ⟨same, same ▸ old⟩
      · rw [grows.text old] at text
        exact absurd (holds.file_of_mem_scan text named) outside
    · rw [finished] at unfinished
      cases unfinished
  have once := @nodup_scan Time host idle state
  constructor
  · refine length_le_one ((once.of_map.filter _).filter _) fun kept one other two => ?_
    simp only [List.mem_filter, decide_eq_true_eq, Bool.not_eq_true'] at one two
    exact List.inj_on_of_nodup_map once one.1.1 two.1.1
      ((new one.1.1 one.1.2 one.2).1.trans (new two.1.1 two.1.2 two.2).1.symm)
  · intro kept among
    obtain ⟨found, outside⟩ := List.mem_filter.mp among
    cases finished : kept.unfinished with
    | true => exact .inl rfl
    | false =>
        obtain ⟨same, free⟩ := new found (of_decide_eq_true outside) finished
        obtain ⟨part, text⟩ := Option.ne_none_iff_exists'.mp (text_of_mem_scan found)
        rw [same] at text
        obtain ⟨twin, listed, shown⟩ := exists_shown reads json (stands part) text (by
          rw [senders]
          exact holds.senderFile_free present (by rw [Files.text?, free])) idle
        have alike := List.inj_on_of_nodup_map once listed found (shown.file.trans same.symm)
        rw [alike] at shown
        exact .inr ⟨part, by rw [same]; exact shown⟩

/-- Kept texts are listed once each, as what they were kept for, and are never overwritten. -/
theorem kept_texts_are_never_lost (reads : host.clock.Reads dated toSecond)
    (json : ∀ sender, host.fromJson (host.toJson sender) = some sender)
    (slash : isAlphanumeric '/' = false) (backslash : isAlphanumeric '\\' = false) :
    (∀ files keeps, Run host dated isAlphanumeric files keeps →
      (∀ keep ∈ keeps, files.text? keep.file = some keep.text) ∧
      (∀ idle, Lists toSecond (scan host idle files) keeps []) ∧
      ∀ process count links domain owner kind path time text,
        isDomainName isAlphanumeric domain = true → isWithinDomain path = true → dated time →
        ∀ state ∈ (write host process count links domain owner kind path time text files).passed,
          (∀ keep ∈ keeps, state.text? keep.file = some keep.text) ∧
          ∀ idle, ∃ rest, Lists toSecond (scan host idle state) keeps rest ∧
            CutOff toSecond domain owner kind path time rest) ∧
      ∀ time, dated time → ∀ name, name ≠ [] → ∀ n,
        parseName host.clock (keptName name (host.clock.format time) n) =
            some (name, toSecond time) ∧
          removedDomain host.clock (removedName name (host.clock.format time) n) = some name := by
  refine ⟨fun files keeps run => ?_, fun time date name present n =>
    ⟨reads.parseName_keptName date present n, reads.removedDomain_removedName date present n⟩⟩
  have holds := run.holds reads slash backslash
  exact ⟨holds.texts, holds.lists reads json, fun process count links _ _ _ _ _ text named within
    date _ member => holds.cutOff reads json process count links text named within date member⟩

end General

/-- A time in the calendar of years with four digits. -/
structure Moment where
  year : Nat
  month : Nat
  day : Nat
  hour : Nat
  minute : Nat
  second : Nat
  nanosecond : Nat
  deriving DecidableEq

namespace Moment

def daysIn (year month : Nat) : Nat :=
  if month = 2 then
    if year % 4 = 0 ∧ (year % 100 ≠ 0 ∨ year % 400 = 0) then 29 else 28
  else if month ∈ [4, 6, 9, 11] then 30
  else 31

def Valid (moment : Moment) : Prop :=
  moment.year ≤ 9999 ∧ (1 ≤ moment.month ∧ moment.month ≤ 12) ∧
    (1 ≤ moment.day ∧ moment.day ≤ daysIn moment.year moment.month) ∧
    moment.hour < 24 ∧ moment.minute < 60 ∧ moment.second < 60

instance (moment : Moment) : Decidable moment.Valid :=
  inferInstanceAs (Decidable (_ ∧ _))

def toSecond (moment : Moment) : Moment := { moment with nanosecond := 0 }

def digit (n : Nat) : Char := Char.ofNat (48 + n)

def twoDigits (n : Nat) : Text := [digit (n / 10), digit (n % 10)]

def digit? (char : Char) : Option Nat :=
  if isAsciiDigit char then some (char.toNat - 48) else none

def number? (tens ones : Char) : Option Nat := do
  let tens ← digit? tens
  let ones ← digit? ones
  some (tens * 10 + ones)

def format (moment : Moment) : Text :=
  twoDigits (moment.year / 100) ++ twoDigits (moment.year % 100) ++ twoDigits moment.month ++
    twoDigits moment.day ++ 'T' :: twoDigits moment.hour ++ twoDigits moment.minute ++
    twoDigits moment.second ++ ['Z']

def parse : Text → Option Moment
  | [a, b, c, d, e, f, g, h, t, i, j, k, l, m, n, z] => do
      let century ← number? a b
      let year ← number? c d
      let month ← number? e f
      let day ← number? g h
      let hour ← number? i j
      let minute ← number? k l
      let second ← number? m n
      let moment : Moment := ⟨century * 100 + year, month, day, hour, minute, second, 0⟩
      if t = 'T' ∧ z = 'Z' ∧ moment.Valid then some moment else none
  | _ => none

def clock : Clock Moment := ⟨format, parse⟩

def order (left right : Moment) : Ordering :=
  compareOn (fun moment => [moment.year, moment.month, moment.day, moment.hour, moment.minute,
    moment.second, moment.nanosecond]) left right

theorem digits (n : Nat) (below : n < 100) :
    number? (digit (n / 10)) (digit (n % 10)) = some n ∧
      isAsciiDigit (digit (n / 10)) = true ∧ isAsciiDigit (digit (n % 10)) = true := by
  decide +revert

variable {moment : Moment}

theorem parse_format (valid : moment.Valid) : parse moment.format = some moment.toSecond := by
  obtain ⟨year, month, day, hour, minute, second, nanosecond⟩ := moment
  obtain ⟨yearly, monthly, daily, hourly, minutely, secondly⟩ := valid
  have days : daysIn year month ≤ 31 := by
    unfold daysIn
    split_ifs <;> decide
  simp only at yearly monthly daily hourly minutely secondly
  simp only [format, twoDigits, List.cons_append, List.nil_append, parse]
  rw [(digits (year / 100) (by omega)).1, (digits (year % 100) (by omega)).1,
    (digits month (by omega)).1, (digits day (by omega)).1, (digits hour (by omega)).1,
    (digits minute (by omega)).1, (digits second (by omega)).1]
  have whole : year / 100 * 100 + year % 100 = year := Nat.div_add_mod' year 100
  simp only [Option.bind_eq_bind, Option.bind_some, whole]
  exact if_pos ⟨trivial, trivial, yearly, monthly, daily, hourly, minutely, secondly⟩

theorem plain_format (valid : moment.Valid) :
    ∀ char ∈ moment.format, isAsciiDigit char = true ∨ char = 'T' ∨ char = 'Z' := by
  obtain ⟨year, month, day, hour, minute, second, nanosecond⟩ := moment
  obtain ⟨yearly, monthly, daily, hourly, minutely, secondly⟩ := valid
  have days : daysIn year month ≤ 31 := by
    unfold daysIn
    split_ifs <;> decide
  simp only at yearly monthly daily hourly minutely secondly
  have two {n : Nat} (below : n < 100) :
      ∀ char ∈ twoDigits n, isAsciiDigit char = true ∨ char = 'T' ∨ char = 'Z' := by
    have both := digits n below
    simp [twoDigits, both.2.1, both.2.2]
  simp only [format, List.append_assoc, List.cons_append, List.forall_mem_append,
    List.forall_mem_cons]
  exact ⟨two (by omega), two (by omega), two (by omega), two (by omega), by simp,
    two (by omega), two (by omega), two (by omega), by simp⟩

theorem reads : clock.Reads Valid toSecond where
  parse_format _ := parse_format
  plain _ := plain_format
  marked moment _ := by simp [clock, format]

end Moment

namespace Sender

def escape (text : Text) : Text :=
  text.flatMap fun char => if char = '"' ∨ char = '\\' then ['\\', char] else [char]

def beforeAccount : Text := "\x7b\"account\":\"".toList

def beforeName : Text := ",\"name\":\"".toList

def toJson (sender : Sender) : Text :=
  beforeAccount ++ (escape sender.account ++ '"' :: (beforeName ++
    (escape sender.name ++ '"' :: "\x7d".toList)))

/-- A string up to its closing quote, and what follows. -/
def readString : (escaped : Bool) → Text → Option (Text × Text)
  | _, [] => none
  | true, char :: rest =>
      if char = '"' ∨ char = '\\' then
        (readString false rest).map fun read => (char :: read.1, read.2)
      else none
  | false, char :: rest =>
      if char = '"' then some ([], rest)
      else if char = '\\' then readString true rest
      else (readString false rest).map fun read => (char :: read.1, read.2)

def fromJson (text : Text) : Option Sender := do
  let (account, rest) ← readString false (← stripPrefix beforeAccount text)
  let (name, rest) ← readString false (← stripPrefix beforeName rest)
  if rest = "\x7d".toList then some ⟨account, name⟩ else none

theorem readString_escape (text rest : Text) :
    readString false (escape text ++ '"' :: rest) = some (text, rest) := by
  induction text with
  | nil => rfl
  | cons char text induction =>
      rw [escape, List.flatMap_cons, ← escape, List.append_assoc]
      by_cases special : char = '"' ∨ char = '\\'
      · rw [if_pos special, List.cons_append, List.cons_append, List.nil_append, readString,
          if_neg (by decide), if_pos rfl, readString, if_pos special, induction, Option.map_some]
      · obtain ⟨notQuote, notEscape⟩ := not_or.mp special
        rw [if_neg special, List.cons_append, List.nil_append, readString, if_neg notQuote,
          if_neg notEscape, induction, Option.map_some]

theorem fromJson_toJson (sender : Sender) : fromJson sender.toJson = some sender := by
  unfold fromJson toJson
  simp only [stripPrefix_append, readString_escape, Option.bind_eq_bind, Option.bind_some, if_true]

end Sender

/-- Ids are the paths themselves. -/
def host : Host Moment := ⟨Moment.clock, Moment.order, Sender.toJson, Sender.fromJson, id⟩

def noon : Moment := ⟨2026, 3, 1, 12, 0, 0, 0⟩

def ada : Sender := ⟨"ada".toList, "Ada".toList⟩

/-- A text with its sender is set aside with its domain, and the same one is kept again. -/
theorem kept_text_is_listed_by_calendar :
    let first := write host 7 0 (fun _ => true) "d".toList none .engram "a".toList noon
      "x".toList Files.empty
    let file : Place := ["d".toList, "engram".toList, "a.20260301T120000Z.md".toList]
    let sent := recordSender host 7 1 file ada first.files
    let aside := setAside host "d".toList noon sent.files
    let again := write host 7 2 (fun _ => true) "d".toList none .engram "a".toList noon
      "x".toList aside.files
    Lists Moment.toSecond (scan host (fun _ => false) again.files)
      [⟨"d".toList, none, .engram, "a".toList, noon, "x".toList, true, some ada,
        [".removed".toList, "d-20260301T120000Z".toList, "engram".toList,
          "a.20260301T120000Z.md".toList]⟩,
      ⟨"d".toList, none, .engram, "a".toList, noon, "x".toList, false, none, file⟩] [] := by
  intro first file sent aside again
  have kept : first.result = .ok file := by decide +kernel
  have recordedOk : sent.result = .ok () := by decide +kernel
  have asideOk : aside.result = .ok (some [".removed".toList, "d-20260301T120000Z".toList]) := by
    decide +kernel
  have keptAgain : again.result = .ok file := by decide +kernel
  have run : Run host Moment.Valid isAsciiAlphanumeric first.files
      [⟨"d".toList, none, .engram, "a".toList, noon, "x".toList, false, none, file⟩] :=
    .write .start 7 0 (fun _ => true) "d".toList none .engram "a".toList noon "x".toList
      (by decide +kernel) (by decide +kernel) (by decide) kept
  have runSent := run.recordSender 7 1 List.mem_cons_self rfl ada
  rw [show (recordSender host 7 1 file ada first.files).result = .ok () from recordedOk] at runSent
  have runAside := runSent.setAside "d".toList noon (by decide)
  rw [show (setAside host "d".toList noon _).result = _ from asideOk] at runAside
  have runAgain := runAside.write 7 2 (fun _ => true) "d".toList none .engram "a".toList noon
    "x".toList (by decide +kernel) (by decide +kernel) (by decide) keptAgain
  exact ((@kept_texts_are_never_lost Moment host Moment.Valid Moment.toSecond isAsciiAlphanumeric
    Moment.reads Sender.fromJson_toJson (by decide) (by decide)).1 _ _ runAgain).2.1 fun _ => false

theorem parseTempName_tempName_noon :
    parseTempName Moment.clock
        (tempName "v1.2-draft.keeping".toList (Moment.clock.format noon) 7 1) =
      some ("v1.2-draft.keeping".toList, noon) :=
  Moment.reads.parseTempName_tempName (by decide) (by decide) 7 1

/-- A sender recorded for a text that was set aside stays at the text's old name, and is
listed as the sender of the next text that is kept there. -/
theorem late_sender_goes_to_another_text :
    let first := write host 7 0 (fun _ => true) "d".toList none .engram "a".toList noon
      "x".toList Files.empty
    let aside := setAside host "d".toList noon first.files
    let second := write host 7 1 (fun _ => true) "d".toList none .engram "b".toList noon
      "y".toList aside.files
    let file : Place := ["d".toList, "engram".toList, "a.20260301T120000Z.md".toList]
    let late := recordSender host 7 2 file ada second.files
    let third := write host 7 3 (fun _ => true) "d".toList none .engram "a".toList noon
      "z".toList late.files
    first.result = .ok file ∧ aside.result.toOption.isSome = true ∧
      second.result.toOption.isSome = true ∧ late.result = .ok () ∧ third.result = .ok file ∧
      (scan host (fun _ => false) third.files).map
          (fun kept => (kept.path, kept.removed, kept.sender)) =
        [("a".toList, true, none), ("a".toList, false, some ada), ("b".toList, false, none)] := by
  decide +kernel

end Crystalline.Kept
