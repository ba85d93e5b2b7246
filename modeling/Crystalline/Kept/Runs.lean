import Crystalline.Kept.Scanned
import Crystalline.Kept.Written
import Crystalline.Names.DomainName
import Crystalline.Tables.Marks

/-!
# Kept texts over whole runs

Every text that was kept is listed as what it was kept for, and nothing else is: the
files below the kept folder are the texts, each at a place that spells what it is, and the
records of their senders beside them.
-/

namespace Crystalline.Kept

open Text
open Names (isDomainName validateDomainName)
open Overlay (segments isWithinDomain)

variable {Time : Type} {host : Host Time} {dated : Time → Prop} {toSecond : Time → Time}
  {isAlphanumeric : Char → Bool}

theorem exists_segments {path : Text} (within : isWithinDomain path = true) :
    ∃ above last, segments path = above ++ [last] ∧ ∀ name ∈ above ++ [last], name ≠ [] := by
  rw [isWithinDomain, Bool.and_eq_true] at within
  have named : ∀ name ∈ segments path, name ≠ [] := by
    intro name member
    have held := List.all_eq_true.mp within.2 name member
    simp only [ne_eq, Bool.and_eq_true, decide_eq_true_eq] at held
    exact held.1.1
  have present : segments path ≠ [] := List.splitOn_ne_nil '/' path
  obtain ⟨above, last, same⟩ := (List.eq_nil_or_concat (segments path)).resolve_left present
  rw [List.concat_eq_append] at same
  exact ⟨above, last, same, same ▸ named⟩

theorem relOf_concat (rel : Text) (names : List Text) (name : Text) :
    relOf rel (names ++ [name]) = childOf (relOf rel names) name :=
  List.foldl_concat ..

theorem relOf_eq {names : List Text} (named : ∀ name ∈ names, name ≠ []) :
    relOf [] names = Marks.joined '/' names := by
  induction names using List.reverseRecOn with
  | nil => rfl
  | append_singleton names name induction =>
      have before := induction fun other member => named other (List.mem_append_left _ member)
      rw [relOf_concat, before, childOf]
      cases names with
      | nil =>
          rw [List.nil_append, Marks.joined_singleton]
          rfl
      | cons first names =>
          have solid : (Marks.joined '/' (first :: names)).isEmpty = false := by
            obtain ⟨char, rest, same⟩ :=
              List.exists_cons_of_ne_nil (named first List.mem_cons_self)
            have inside : char ∈ first := by
              rw [same]
              exact List.mem_cons_self
            have among := Marks.mem_joined_of_mem '/'
              (List.mem_cons_self : first ∈ first :: names) inside
            exact List.isEmpty_eq_false_iff.mpr (List.ne_nil_of_mem among)
          rw [solid, Marks.joined_append '/' (List.cons_ne_nil _ _) (List.cons_ne_nil _ _),
            Marks.joined_singleton]
          rfl

theorem childOf_relOf {path last : Text} {above : List Text}
    (parted : segments path = above ++ [last]) (named : ∀ name ∈ above ++ [last], name ≠ []) :
    childOf (relOf [] above) last = path := by
  rw [← relOf_concat, relOf_eq named, ← parted]
  exact List.intercalate_splitOn '/'

/-- The last character of a place's name. -/
def lastChar (place : Place) : Option Char := (place.getLastD []).getLast?

theorem lastChar_concat (dir : Place) (name : Text) : lastChar (dir ++ [name]) = name.getLast? := by
  rw [lastChar, List.getLastD_concat]

theorem lastChar_appendName (place : Place) (suffix : Text) (char : Char) :
    lastChar (appendName place (suffix ++ [char])) = some char := by
  rw [appendName, lastChar_concat, ← List.append_assoc, List.getLast?_concat]

theorem lastChar_senderFile (file : Place) : lastChar (senderFile file) = some 'm' :=
  lastChar_appendName file ".fro".toList 'm'

theorem lastChar_senderTemp (file : Place) (process count : Nat) :
    lastChar (senderTemp file process count) = some 'g' := by
  have parted : '.' :: Toon.decimal process ++ '-' :: Toon.decimal count ++ tempSuffix =
      ('.' :: Toon.decimal process ++ '-' :: Toon.decimal count ++ ".keepin".toList) ++ ['g'] := by
    rw [show tempSuffix = ".keepin".toList ++ ['g'] from rfl]
    simp
  rw [senderTemp, parted]
  exact lastChar_appendName _ _ 'g'

theorem keptName_eq (name stamp : Text) (n : Nat) :
    ∃ front, keptName name stamp n = front ++ ['d'] := by
  unfold keptName
  split_ifs
  · exact ⟨name ++ '.' :: stamp ++ ".m".toList, by simp⟩
  · exact ⟨name ++ '.' :: stamp ++ '-' :: Toon.decimal n ++ ".m".toList, by simp⟩

theorem lastChar_kept (dir : Place) (name stamp : Text) (n : Nat) :
    lastChar (dir ++ [keptName name stamp n]) = some 'd' := by
  obtain ⟨front, same⟩ := keptName_eq name stamp n
  rw [lastChar_concat, same, List.getLast?_concat]

theorem lastChar_temp (base : Place) (stamp : Text) (process count : Nat) :
    lastChar (tempPlace base stamp process count) = some 'g' := by
  have parted : tempName (base.getLastD []) stamp process count =
      ('.' :: base.getLastD [] ++ '.' :: stamp ++ '.' :: Toon.decimal process ++
        '-' :: Toon.decimal count ++ ".keepin".toList) ++ ['g'] := by
    rw [tempName, List.append_assoc _ ".keepin".toList]
    rfl
  rw [tempPlace, lastChar_concat, parted, List.getLast?_concat]

theorem senderFile_injective {file other : Place} (some : file ≠ []) (present : other ≠ [])
    (same : senderFile file = senderFile other) : file = other := by
  obtain ⟨front, last, rfl⟩ := (List.eq_nil_or_concat file).resolve_left some
  obtain ⟨before, final, rfl⟩ := (List.eq_nil_or_concat other).resolve_left present
  simp only [List.concat_eq_append, senderFile, appendName, List.dropLast_concat,
    List.getLastD_concat] at same ⊢
  obtain ⟨fronts, lasts⟩ := List.append_inj' same rfl
  rw [fronts, List.append_cancel_right (List.cons.inj lasts).1]

/-- What a scan lists as finished is named like a kept text. -/
theorem lastChar_of_mem_scan {idle : Place → Bool} {files : Files} {kept : KeptText Time}
    (found : kept ∈ scan host idle files) :
    (lastChar kept.file = some 'd' ∧ kept.unfinished = false) ∨
      (lastChar kept.file = some 'g' ∧ kept.unfinished = true) := by
  obtain ⟨place, dir, above, -, name, -, listed⟩ := mem_scan.mp found
  have file := file_walkFile listed
  rw [file, entryAt_path, lastChar_concat]
  rw [walkFile, nameGiven, entryAt_name] at listed
  rcases List.eq_nil_or_concat name with rfl | ⟨front, last, rfl⟩
  · have unread : parseName host.clock [] = none := rfl
    have unheld : parseTempName host.clock [] = none := rfl
    rw [unread, unheld] at listed
    cases listed
  · rw [List.concat_eq_append] at listed ⊢
    rw [List.getLast?_concat]
    by_cases isKept : last = 'd'
    · have unheld : parseTempName host.clock (front ++ [last]) = none :=
        parseTempName_eq_none (by rw [isKept]; decide)
      rw [unheld] at listed
      refine .inl ⟨by rw [isKept], ?_⟩
      split at listed
      · cases listed
      · rename_i given
        split at given
        · cases given
          rw [List.mem_singleton.mp listed]
        · cases given
    · have unread : parseName host.clock (front ++ [last]) = none := parseName_eq_none isKept
      rw [unread] at listed
      refine .inr ?_
      split at listed
      · cases listed
      · rename_i given
        simp only at given
        split at given
        · rename_i held
          have isTemp : last = 'g' := by
            by_contra other
            rw [parseTempName_eq_none other] at held
            cases held
          split_ifs at given
          cases given
          exact ⟨by rw [isTemp], by rw [List.mem_singleton.mp listed]⟩
        · cases given

/-- A text that was kept: what it was kept for, whether its domain was set aside since, the
sender that was recorded, and where it stands. -/
structure Keep (Time : Type) where
  domain : Text
  owner : Option Text
  kind : KeptKind
  path : Text
  time : Time
  text : Text
  removed : Bool
  sender : Option Sender
  file : Place

/-- The texts after a sender was recorded for the one at `file`. -/
def recorded (answer : Except IoError Unit) (file : Place) (sender : Sender)
    (keeps : List (Keep Time)) : List (Keep Time) :=
  match answer with
  | .ok () => keeps.map fun keep =>
      if keep.file = file then { keep with sender := some sender } else keep
  | .error _ => keeps

/-- The texts after a domain's were set aside. -/
def withdrawn (answer : Except IoError (Option Place)) (domain : Text)
    (keeps : List (Keep Time)) : List (Keep Time) :=
  match answer with
  | .ok target => keeps.map fun keep =>
      if keep.domain = domain ∧ keep.removed = false then
        { keep with removed := true, file := target.getD [] ++ keep.file.drop 1 }
      else keep
  | .error _ => keeps

/-- Runs of the calls that keep texts, on a folder that is empty at first.  A sender is
recorded for a text that stands where it was kept. -/
inductive Run (host : Host Time) (dated : Time → Prop) (isAlphanumeric : Char → Bool) :
    Files → List (Keep Time) → Prop where
  | start : Run host dated isAlphanumeric Files.empty []
  | write {files : Files} {keeps : List (Keep Time)}
      (run : Run host dated isAlphanumeric files keeps) (process count : Nat)
      (links : Nat → Bool) (domain : Text) (owner : Option Text) (kind : KeptKind)
      (path : Text) (time : Time) (text : Text) {file : Place}
      (named : isDomainName isAlphanumeric domain = true) (within : isWithinDomain path = true)
      (date : dated time)
      (kept : (write host process count links domain owner kind path time text files).result =
        .ok file) :
      Run host dated isAlphanumeric
        (write host process count links domain owner kind path time text files).files
        (keeps ++ [⟨domain, owner, kind, path, time, text, false, none, file⟩])
  | recordSender {files : Files} {keeps : List (Keep Time)}
      (run : Run host dated isAlphanumeric files keeps) (process count : Nat) {keep : Keep Time}
      (member : keep ∈ keeps) (standing : keep.removed = false) (sender : Sender) :
      Run host dated isAlphanumeric (recordSender host process count keep.file sender files).files
        (recorded (recordSender host process count keep.file sender files).result keep.file sender
          keeps)
  | setAside {files : Files} {keeps : List (Keep Time)}
      (run : Run host dated isAlphanumeric files keeps) (domain : Text) (time : Time)
      (date : dated time) :
      Run host dated isAlphanumeric (setAside host domain time files).files
        (withdrawn (setAside host domain time files).result domain keeps)

/-- A text stands at the place that spells what it was kept for. -/
structure Keep.Stands (host : Host Time) (dated : Time → Prop) (isAlphanumeric : Char → Bool)
    (keep : Keep Time) : Prop where
  named : isDomainName isAlphanumeric keep.domain = true
  within : isWithinDomain keep.path = true
  date : dated keep.time
  place : ∃ top within number, Top host.clock top keep.domain keep.removed within ∧
    keep.file = keptPlace (top ++ ownerPart keep.owner ++ [keep.kind.asStr] ++ segments keep.path)
      (host.clock.format keep.time) number

/-- What the files below the kept folder are. -/
structure Holds (host : Host Time) (dated : Time → Prop) (isAlphanumeric : Char → Bool)
    (files : Files) (keeps : List (Keep Time)) : Prop where
  stands : ∀ keep ∈ keeps, keep.Stands host dated isAlphanumeric
  distinct : (keeps.map Keep.file).Nodup
  texts : ∀ keep ∈ keeps, files.text? keep.file = some keep.text
  senders : ∀ keep ∈ keeps, files.text? (senderFile keep.file) = keep.sender.map host.toJson
  only : ∀ place, files.text? place ≠ none →
    ∃ keep ∈ keeps, place = keep.file ∨ place = senderFile keep.file

theorem plain_of_isDomainName {domain : Text} (named : isDomainName isAlphanumeric domain = true) :
    domain ≠ [] ∧ startsWith domain ['.'] = false ∧
      ∀ char ∈ domain, isAlphanumeric char = true ∨ char ∈ ['-', '_', '.'] := by
  rw [isDomainName, validateDomainName] at named
  split at named
  · cases named
  · rename_i solid
    simp only at named
    split at named
    · rename_i allowed
      simp only [Bool.and_eq_true, Bool.not_eq_true', List.all_eq_true, Bool.or_eq_true,
        decide_eq_true_eq] at allowed
      refine ⟨?_, allowed.1.1.1.2, allowed.1.2⟩
      rintro rfl
      exact solid rfl
    · cases named

namespace Keep.Stands

variable {keep : Keep Time} (stands : keep.Stands host dated isAlphanumeric)
include stands

theorem exists_parts :
    ∃ top within above last number, Top host.clock top keep.domain keep.removed within ∧
      segments keep.path = above ++ [last] ∧ (∀ name ∈ above ++ [last], name ≠ []) ∧
      keep.file = top ++ ownerPart keep.owner ++ [keep.kind.asStr] ++ above ++
        [keptName last (host.clock.format keep.time) number] := by
  obtain ⟨top, within, number, top_, file⟩ := stands.place
  obtain ⟨above, last, parted, named⟩ := exists_segments stands.within
  refine ⟨top, within, above, last, number, top_, parted, named, ?_⟩
  rw [file, keptPlace, parted, ← List.append_assoc, List.dropLast_concat, List.getLastD_concat]

theorem lastChar : lastChar keep.file = some 'd' := by
  obtain ⟨top, within, above, last, number, -, -, -, file⟩ := stands.exists_parts
  rw [file, lastChar_kept]

theorem three_le_length : 3 ≤ keep.file.length := by
  obtain ⟨top, within, above, last, number, top_, -, -, file⟩ := stands.exists_parts
  have rooted : 1 ≤ top.length := by
    generalize keep.removed = removed at top_
    cases top_ <;> simp
  rw [file]
  simp only [List.length_append, List.length_singleton]
  omega

theorem file_ne_nil : keep.file ≠ [] :=
  List.ne_nil_of_length_pos (Nat.lt_of_lt_of_le (by decide) stands.three_le_length)

end Keep.Stands

namespace Holds

variable {files : Files} {keeps : List (Keep Time)}
  (holds : Holds host dated isAlphanumeric files keeps)
include holds

theorem text?_eq_none {place : Place} (other : lastChar place ≠ some 'd')
    (beside : lastChar place ≠ some 'm') : files.text? place = none := by
  by_contra some
  obtain ⟨keep, member, own | sender⟩ := holds.only place some
  · exact other (own ▸ (holds.stands keep member).lastChar)
  · exact beside (sender ▸ lastChar_senderFile keep.file)

theorem senderFile_free {file : Place} (named : file ≠ []) (free : files.text? file = none) :
    files.text? (senderFile file) = none := by
  by_contra some
  obtain ⟨keep, member, own | sender⟩ := holds.only _ some
  · have isKept := (holds.stands keep member).lastChar
    rw [← own, lastChar_senderFile] at isKept
    cases isKept
  · have same := senderFile_injective named (holds.stands keep member).file_ne_nil sender
    rw [same, holds.texts keep member] at free
    cases free

variable {after : Files} {keep : Keep Time}

theorem write (stands : keep.Stands host dated isAlphanumeric) (bare : keep.sender = none)
    (has : Has keep.file keep.text files after) :
    Holds host dated isAlphanumeric after (keeps ++ [keep]) := by
  have fresh : files.text? keep.file = none := by
    rw [Files.text?, has.free]
  have apart {other : Keep Time} (member : other ∈ keeps) : other.file ≠ keep.file := by
    intro same
    rw [← same, holds.texts other member] at fresh
    cases fresh
  have beside (file : Place) : senderFile file ≠ keep.file := by
    intro same
    have isKept := stands.lastChar
    rw [← same, lastChar_senderFile] at isKept
    cases isKept
  constructor
  · intro other member
    rcases List.mem_append.mp member with old | new
    · exact holds.stands other old
    · exact List.mem_singleton.mp new ▸ stands
  · rw [List.map_append, List.map_singleton]
    refine List.nodup_append.mpr ⟨holds.distinct, List.nodup_singleton _, ?_⟩
    intro file first other second same
    obtain ⟨old, member, rfl⟩ := List.mem_map.mp first
    exact apart member (same.trans (List.mem_singleton.mp second))
  · intro other member
    rw [has.text]
    rcases List.mem_append.mp member with old | new
    · rw [if_neg (apart old), holds.texts other old]
    · rw [List.mem_singleton.mp new, if_pos rfl]
  · intro other member
    rw [has.text, if_neg (beside other.file)]
    rcases List.mem_append.mp member with old | new
    · exact holds.senders other old
    · rw [List.mem_singleton.mp new, holds.senderFile_free stands.file_ne_nil fresh, bare]
      rfl
  · intro place some
    rw [has.text] at some
    split_ifs at some with own
    · exact ⟨keep, by simp, .inl own⟩
    · obtain ⟨other, member, same⟩ := holds.only place some
      exact ⟨other, List.mem_append_left _ member, same⟩

omit holds in
/-- The texts after a change that leaves each of them whole. -/
theorem map (holds : Holds host dated isAlphanumeric files keeps) {change : Keep Time → Keep Time}
    (stands : ∀ keep ∈ keeps, (change keep).Stands host dated isAlphanumeric)
    (apart : ∀ keep ∈ keeps, ∀ other ∈ keeps, (change keep).file = (change other).file →
      keep.file = other.file)
    (texts : ∀ keep ∈ keeps, after.text? (change keep).file = some (change keep).text)
    (senders : ∀ keep ∈ keeps,
      after.text? (senderFile (change keep).file) = (change keep).sender.map host.toJson)
    (only : ∀ place, after.text? place ≠ none → ∃ keep ∈ keeps,
      place = (change keep).file ∨ place = senderFile (change keep).file) :
    Holds host dated isAlphanumeric after (keeps.map change) where
  stands := List.forall_mem_map.mpr stands
  distinct := by
    rw [List.map_map]
    refine List.Nodup.map_on (fun keep member other among same => ?_) holds.distinct.of_map
    exact List.inj_on_of_nodup_map holds.distinct member among (apart keep member other among same)
  texts := List.forall_mem_map.mpr texts
  senders := List.forall_mem_map.mpr senders
  only place some := by
    obtain ⟨keep, member, same⟩ := only place some
    exact ⟨change keep, List.mem_map_of_mem member, same⟩

theorem of_texts (same : ∀ place, after.text? place = files.text? place) :
    Holds host dated isAlphanumeric after keeps :=
  ⟨holds.stands, holds.distinct, fun other member => by rw [same, holds.texts other member],
    fun other member => by rw [same, holds.senders other member],
    fun place some => holds.only place (by rwa [← same])⟩

theorem recordSender (process count : Nat) (member : keep ∈ keeps) (sender : Sender) :
    Holds host dated isAlphanumeric
      (Kept.recordSender host process count keep.file sender files).files
      (recorded (Kept.recordSender host process count keep.file sender files).result keep.file
        sender keeps) := by
  have clear : files.text? (senderTemp keep.file process count) = none := by
    apply holds.text?_eq_none <;> rw [lastChar_senderTemp] <;> decide
  have texts := (@recordSender_meets Time host files process count keep.file sender clear).2
  generalize Kept.recordSender host process count keep.file sender files = ran at texts
  obtain ⟨passed, after, result⟩ := ran
  cases result with
  | error error => exact holds.of_texts texts
  | ok _ =>
      simp only at texts
      have file (other : Keep Time) : (if other.file = keep.file then
          { other with sender := some sender } else other).file = other.file := by
        split_ifs <;> rfl
      refine holds.map (fun other among => ?_) (fun other _ twin _ same => by rwa [file, file] at same)
        (fun other among => ?_) (fun other among => ?_) fun place some => ?_
      · have stands := holds.stands other among
        split_ifs
        · exact ⟨stands.named, stands.within, stands.date, stands.place⟩
        · exact stands
      · have apart : other.file ≠ senderFile keep.file := by
          intro same
          have isKept := (holds.stands other among).lastChar
          rw [same, lastChar_senderFile] at isKept
          cases isKept
        rw [file, texts, if_neg apart, holds.texts other among]
        split_ifs <;> rfl
      · rw [file, texts]
        by_cases same : other.file = keep.file
        · rw [if_pos same, if_pos (by rw [same])]
          rfl
        · have apart : senderFile other.file ≠ senderFile keep.file := fun alike =>
            same (senderFile_injective (holds.stands other among).file_ne_nil
              (holds.stands keep member).file_ne_nil alike)
          rw [if_neg same, if_neg apart, holds.senders other among]
      · rw [texts] at some
        split_ifs at some with own
        · exact ⟨keep, member, .inr (by rw [own, file])⟩
        · obtain ⟨other, among, same⟩ := holds.only place some
          exact ⟨other, among, by rwa [file]⟩

end Holds

theorem keptPlace_append (front : Place) {base : Place} (present : base ≠ []) (stamp : Text)
    (number : Nat) :
    keptPlace (front ++ base) stamp number = front ++ keptPlace base stamp number := by
  obtain ⟨others, last, rfl⟩ := (List.eq_nil_or_concat base).resolve_left present
  rw [List.concat_eq_append, keptPlace, keptPlace, ← List.append_assoc, List.dropLast_concat,
    List.getLastD_concat, List.dropLast_concat, List.getLastD_concat, List.append_assoc]

theorem senderFile_append (front : Place) {rest : Place} (present : rest ≠ []) :
    senderFile (front ++ rest) = front ++ senderFile rest := by
  obtain ⟨others, last, rfl⟩ := (List.eq_nil_or_concat rest).resolve_left present
  simp only [List.concat_eq_append, senderFile, appendName, ← List.append_assoc,
    List.dropLast_concat, List.getLastD_concat]

theorem Keep.Stands.exists_inner {keep : Keep Time}
    (stands : keep.Stands host dated isAlphanumeric) :
    ∃ top within inner, Top host.clock top keep.domain keep.removed within ∧ inner ≠ [] ∧
      keep.file = top ++ inner ∧
      ∀ folder, removedDomain host.clock folder = some keep.domain →
        { keep with removed := true, file := [removedDir, folder] ++ inner }.Stands host dated
          isAlphanumeric := by
  obtain ⟨top, within, number, top_, file⟩ := stands.place
  have present : ownerPart keep.owner ++ [keep.kind.asStr] ++ segments keep.path ≠ [] := by simp
  have parted (top : Place) : top ++ ownerPart keep.owner ++ [keep.kind.asStr] ++
      segments keep.path = top ++ (ownerPart keep.owner ++ [keep.kind.asStr] ++
        segments keep.path) := by
    simp only [List.append_assoc]
  refine ⟨top, within, keptPlace (ownerPart keep.owner ++ [keep.kind.asStr] ++
    segments keep.path) (host.clock.format keep.time) number, top_, ?_, ?_,
    fun folder was => ⟨stands.named, stands.within, stands.date, _, _, number, .removed was, ?_⟩⟩
  · exact List.append_ne_nil_of_right_ne_nil _ (List.cons_ne_nil _ _)
  · rw [file, parted, keptPlace_append _ present]
  · rw [parted, keptPlace_append _ present]

namespace Holds

variable {files : Files} {keeps : List (Keep Time)}
  (holds : Holds host dated isAlphanumeric files keeps)
include holds

variable {keep : Keep Time}

/-- A domain that has a text of its own has a folder, and a name that is set aside. -/
theorem not_keptNothing (slash : isAlphanumeric '/' = false)
    (backslash : isAlphanumeric '\\' = false) (member : keep ∈ keeps)
    (standing : keep.removed = false) : ¬ KeptNothing keep.domain files := by
  have stands := holds.stands keep member
  obtain ⟨present, plain, letters⟩ := plain_of_isDomainName stands.named
  obtain ⟨top, within, inner, top_, some, file, -⟩ := stands.exists_inner
  rw [standing] at top_
  cases top_
  rintro (none | dotted | slashed | unfounded)
  · exact present none
  · rw [plain] at dotted
    cases dotted
  · obtain ⟨char, among, is⟩ := List.any_eq_true.mp slashed
    have both : isAlphanumeric char = false ∧ char ∉ ['-', '_', '.'] := by
      simp only [List.mem_cons, List.not_mem_nil, or_false, decide_eq_true_eq] at is
      rcases is with rfl | rfl
      · exact ⟨slash, by decide⟩
      · exact ⟨backslash, by decide⟩
    rcases letters char among with letter | mark
    · rw [both.1] at letter
      cases letter
    · exact both.2 mark
  · have text := holds.texts keep member
    rw [file] at text
    exact unfounded (@folder_above files [] keep.domain inner some (by
      rw [List.nil_append, text]
      exact nofun))

omit holds in
theorem below_domain {domain : Text} (plain : startsWith domain ['.'] = false)
    (stands : keep.Stands host dated isAlphanumeric) :
    ([domain] <+: keep.file ↔ keep.domain = domain ∧ keep.removed = false) ∧
      ([domain] <+: senderFile keep.file ↔ keep.domain = domain ∧ keep.removed = false) := by
  obtain ⟨top, within, inner, top_, some, file, -⟩ := stands.exists_inner
  have sender : senderFile keep.file = top ++ senderFile inner := by
    rw [file, senderFile_append top some]
  rw [sender, file]
  generalize keep.removed = removed at top_
  have head : ∀ rest : Place, [domain] <+: top ++ rest ↔
      keep.domain = domain ∧ removed = false := by
    intro rest
    cases top_ with
    | own _ =>
        rw [List.singleton_append, List.cons_prefix_cons]
        exact ⟨fun same => ⟨same.1.symm, rfl⟩, fun same => ⟨same.1.symm, List.nil_prefix⟩⟩
    | removed _ =>
        rw [List.cons_append, List.cons_prefix_cons]
        refine ⟨fun same => ?_, fun no => absurd no.2 Bool.true_eq_false.mp⟩
        rw [same.1] at plain
        exact absurd plain (by decide)
  exact ⟨head inner, head (senderFile inner)⟩

section

variable {after : Files} {domain folder : Text} (free : files.node [removedDir, folder] = none)
include free

omit holds in
/-- Nothing stands below a name that is free. -/
theorem not_below_free {place : Place} (some : files.text? place ≠ none) :
    ¬ [removedDir, folder] <+: place := by
  rintro ⟨rest, rfl⟩
  rcases List.eq_nil_or_concat rest with rfl | ⟨front, last, rfl⟩
  · rw [List.append_nil] at some
    exact (node_of_text some).1 free
  · have above := @folder_above files [removedDir] folder _ (by simp) some
    cases free.symm.trans above

theorem file_not_below_free (member : keep ∈ keeps) : ¬ [removedDir, folder] <+: keep.file :=
  not_below_free free (by rw [holds.texts keep member]; exact nofun)

theorem senderFile_not_below_free (member : keep ∈ keeps) :
    ¬ [removedDir, folder] <+: senderFile keep.file := by
  intro inside
  have long := (holds.stands keep member).three_le_length
  have before := List.prefix_of_prefix_length_le inside (List.prefix_append _ _) (by
    rw [List.length_dropLast]
    simp only [List.length_cons, List.length_nil]
    omega)
  exact holds.file_not_below_free free member (before.trans (List.dropLast_prefix _))

end

end Holds

/-- A text when the folder of a domain is moved. -/
def Keep.moveTo (domain folder : Text) (keep : Keep Time) : Keep Time :=
  if keep.domain = domain ∧ keep.removed = false then
    { keep with removed := true, file := [removedDir, folder] ++ keep.file.drop 1 }
  else keep

/-- A text of the domain goes along with its folder, any other stays. -/
inductive Keep.Moves (host : Host Time) (dated : Time → Prop) (isAlphanumeric : Char → Bool)
    (domain folder : Text) (keep : Keep Time) : Prop
  | along (inner : Place) (present : inner ≠ []) (file : keep.file = domain :: inner)
      (sender : senderFile keep.file = domain :: senderFile inner)
      (fileTo : (keep.moveTo domain folder).file = [removedDir, folder] ++ inner)
      (senderTo : senderFile (keep.moveTo domain folder).file =
        [removedDir, folder] ++ senderFile inner)
      (stands : (keep.moveTo domain folder).Stands host dated isAlphanumeric)
  | stays (same : keep.moveTo domain folder = keep) (apart : ¬ [domain] <+: keep.file)
      (away : ¬ [domain] <+: senderFile keep.file)

section

variable {domain folder : Text} {keep : Keep Time}

theorem Keep.Stands.moves (plain : startsWith domain ['.'] = false)
    (was : removedDomain host.clock folder = some domain)
    (stands : keep.Stands host dated isAlphanumeric) :
    keep.Moves host dated isAlphanumeric domain folder := by
  have below := Holds.below_domain plain stands
  by_cases own : keep.domain = domain ∧ keep.removed = false
  · obtain ⟨top, within, inner, top_, present, file, aside⟩ := stands.exists_inner
    have standing := aside folder (own.1.symm ▸ was)
    rw [own.2] at top_
    cases top_
    rw [own.1] at file
    have moves : keep.moveTo domain folder =
        { keep with removed := true, file := [removedDir, folder] ++ inner } := by
      rw [moveTo, if_pos own, file]
      rfl
    refine .along inner present file ?_ (by rw [moves]) ?_ (moves ▸ standing)
    · rw [file, senderFile_append _ present]
      rfl
    · rw [moves, senderFile_append _ present]
  · exact .stays (if_neg own) (mt below.1.mp own) (mt below.2.mp own)

theorem Keep.moveTo_kept (domain folder : Text) (keep : Keep Time) :
    (keep.moveTo domain folder).text = keep.text ∧
      (keep.moveTo domain folder).sender = keep.sender := by
  rw [moveTo]
  split_ifs <;> exact ⟨rfl, rfl⟩

end

namespace Holds

variable {files after : Files} {keeps : List (Keep Time)} {domain folder stamp : Text}
  (holds : Holds host dated isAlphanumeric files keeps)
include holds

section

variable (aside : SetAside domain stamp files after [removedDir, folder])
include aside

/-- Every text and every sender's record keeps what it holds. -/
theorem texts_moved {keep : Keep Time} (member : keep ∈ keeps)
    (moves : keep.Moves host dated isAlphanumeric domain folder) :
    after.text? (keep.moveTo domain folder).file = files.text? keep.file ∧
      after.text? (senderFile (keep.moveTo domain folder).file) =
        files.text? (senderFile keep.file) := by
  obtain ⟨-, free, moved⟩ := aside
  cases moves with
  | along inner present file sender fileTo senderTo stands =>
      rw [senderTo, fileTo, sender, file, moved, moved, if_pos (List.prefix_append _ _),
        if_pos (List.prefix_append _ _)]
      exact ⟨rfl, rfl⟩
  | stays same apart away =>
      rw [same, moved, moved, if_neg (holds.file_not_below_free free member),
        if_neg (holds.senderFile_not_below_free free member), if_neg apart, if_neg away]
      exact ⟨rfl, rfl⟩

theorem moveTo_injective {keep other : Keep Time} (member : keep ∈ keeps) (among : other ∈ keeps)
    (moves : keep.Moves host dated isAlphanumeric domain folder)
    (moved : other.Moves host dated isAlphanumeric domain folder)
    (same : (keep.moveTo domain folder).file = (other.moveTo domain folder).file) :
    keep.file = other.file := by
  obtain ⟨-, free, -⟩ := aside
  cases moves with
  | along inner _ file _ fileTo =>
      cases moved with
      | along outer _ fileToo _ toToo =>
          rw [fileTo, toToo] at same
          rw [file, fileToo, List.append_cancel_left same]
      | stays stay =>
          rw [fileTo, stay] at same
          exact absurd (same ▸ List.prefix_append _ _) (holds.file_not_below_free free among)
  | stays stays =>
      cases moved with
      | along outer _ _ _ toToo =>
          rw [stays, toToo] at same
          exact absurd (same ▸ List.prefix_append _ _) (holds.file_not_below_free free member)
      | stays stay => rwa [stays, stay] at same

/-- Whatever is a text after the move was one before it, of a text that is kept. -/
theorem only_moved (each : ∀ keep ∈ keeps, keep.Moves host dated isAlphanumeric domain folder)
    {place : Place} (some : after.text? place ≠ none) :
    ∃ keep ∈ keeps, place = (keep.moveTo domain folder).file ∨
      place = senderFile (keep.moveTo domain folder).file := by
  obtain ⟨-, free, moved⟩ := aside
  rw [moved] at some
  split_ifs at some with under gone
  · obtain ⟨rest, rfl⟩ := under
    obtain ⟨keep, member, same⟩ := holds.only _ some
    have same : domain :: rest = keep.file ∨ domain :: rest = senderFile keep.file := same
    refine ⟨keep, member, ?_⟩
    cases each keep member with
    | along inner _ file sender fileTo senderTo =>
        rw [senderTo, fileTo]
        rw [sender, file] at same
        exact same.imp (fun file => by rw [(List.cons.inj file).2])
          fun sender => by rw [(List.cons.inj sender).2]
    | stays _ apart away =>
        exact same.elim (fun file => (apart (file ▸ ⟨rest, rfl⟩)).elim)
          fun sender => (away (sender ▸ ⟨rest, rfl⟩)).elim
  · exact absurd rfl some
  · obtain ⟨keep, member, same⟩ := holds.only place some
    refine ⟨keep, member, ?_⟩
    cases each keep member with
    | along inner _ file sender =>
        rw [sender, file] at same
        exact same.elim (fun file => (gone (file ▸ ⟨inner, rfl⟩)).elim)
          fun sender => (gone (sender ▸ ⟨senderFile inner, rfl⟩)).elim
    | stays stays => rwa [stays]

/-- The texts after the folder of a domain was moved. -/
theorem moved (plain : startsWith domain ['.'] = false)
    (was : removedDomain host.clock folder = some domain) :
    Holds host dated isAlphanumeric after
      (withdrawn (.ok (some [removedDir, folder])) domain keeps) := by
  have each (keep : Keep Time) (member : keep ∈ keeps) :
      keep.Moves host dated isAlphanumeric domain folder :=
    (holds.stands keep member).moves plain was
  change Holds host dated isAlphanumeric after (keeps.map (Keep.moveTo domain folder))
  refine holds.map (fun keep member => ?_)
    (fun keep member other among =>
      holds.moveTo_injective aside member among (each keep member) (each other among))
    (fun keep member => ?_) (fun keep member => ?_) fun place => holds.only_moved aside each
  · cases each keep member with
    | along _ _ _ _ _ _ stands => exact stands
    | stays same =>
        rw [same]
        exact holds.stands keep member
  · rw [(holds.texts_moved aside member (each keep member)).1, holds.texts keep member,
      (keep.moveTo_kept domain folder).1]
  · rw [(holds.texts_moved aside member (each keep member)).2, holds.senders keep member,
      (keep.moveTo_kept domain folder).2]

end

theorem setAside (reads : host.clock.Reads dated toSecond) (slash : isAlphanumeric '/' = false)
    (backslash : isAlphanumeric '\\' = false) (domain : Text) {time : Time} (date : dated time) :
    Holds host dated isAlphanumeric (Kept.setAside host domain time files).files
      (withdrawn (Kept.setAside host domain time files).result domain keeps) := by
  have ended := (@setAside_meets Time host files domain time).2
  generalize Kept.setAside host domain time files = ran at ended
  obtain ⟨passed, after, result⟩ := ran
  rcases result with error | target | place
  · exact holds.of_texts ended
  · obtain ⟨nothing, same⟩ := ended
    have still : withdrawn (.ok none) domain keeps = keeps := by
      rw [withdrawn]
      conv_rhs => rw [← List.map_id keeps]
      apply List.map_congr_left
      intro keep member
      rw [if_neg]
      · rfl
      · rintro ⟨rfl, standing⟩
        exact holds.not_keptNothing slash backslash member standing nothing
    rw [still]
    exact holds.of_texts same
  · obtain ⟨something, aside⟩ := ended
    obtain ⟨number, rfl⟩ := aside.isName
    have present : domain ≠ [] := fun none => something (.inl none)
    have plain : startsWith domain ['.'] = false := by
      by_contra dotted
      exact something (.inr (.inl (by simpa using dotted)))
    exact holds.moved aside plain (reads.removedDomain_removedName date present number)

end Holds

end Crystalline.Kept
