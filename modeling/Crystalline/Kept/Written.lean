import Crystalline.Kept.Keeping

/-!
# What the programs change

A text that is kept adds one file, at a place where nothing stood; on the way a temporary
file stands beside it.  Whatever stood before stands as it was in every tree the program
passes through.
-/

namespace Crystalline.Kept

open Text
open Toon (decimal)

variable {Time : Type} {host : Host Time} {files after : Files} {failed : Files → Prop}

/-- The place of a kept text, and of the temporary file beside it. -/
def keptPlace (base : Place) (stamp : Text) (number : Nat) : Place :=
  base.dropLast ++ [keptName (base.getLastD []) stamp number]

def tempPlace (base : Place) (stamp : Text) (process count : Nat) : Place :=
  base.dropLast ++ [tempName (base.getLastD []) stamp process count]

variable {place : Place}

theorem Grows.text?_eq {free : Place → Prop} (grows : Grows free files after)
    (apart : ¬ free place) :
    after.text? place = files.text? place := by
  by_cases some : files.node place = none
  · have none : after.text? place = none := by
      by_contra new
      exact apart (grows.new place some new)
    rw [none, Files.text?, some]
  · exact grows.text some

/-- A tree that only has a text more. -/
structure Has (file : Place) (text : Text) (files after : Files) : Prop where
  free : files.node file = none
  text : ∀ place, after.text? place = if place = file then some text else files.text? place
  stays : ∀ place, files.node place ≠ none → after.node place = files.node place

section Keeping

variable {base : Place} {stamp text : Text} {process : Nat}

/-- The places the temporary file may have. -/
def IsTemp (base : Place) (stamp : Text) (process : Nat) (place : Place) : Prop :=
  ∃ count, place = tempPlace base stamp process count

/-- Only a temporary file is new, with the text in it. -/
structure Opened (base : Place) (stamp text : Text) (process : Nat) (temp : Place)
    (files after : Files) : Prop where
  isTemp : IsTemp base stamp process temp
  free : files.node temp = none
  held : after.node temp = some (.file text)
  grows : Grows (· = temp) files after

variable {temp : Place}

theorem Opened.trans {made : Files} (grows : Grows (fun _ => False) files made)
    (opened : Opened base stamp text process temp made after) :
    Opened base stamp text process temp files after where
  isTemp := opened.isTemp
  free := grows.node_eq_none opened.free
  held := opened.held
  grows := (grows.mono fun _ no => no.elim).trans opened.grows

theorem Opened.of_beside {count : Nat}
    (beside : Beside (tempPlace base stamp process count) files after)
    (held : after.node (tempPlace base stamp process count) = some (.file text)) :
    Opened base stamp text process (tempPlace base stamp process count) files after :=
  ⟨⟨count, rfl⟩, beside.free, held,
    (Grows.refl _ files).at_place beside.free (fun _ => rfl) beside.others⟩

theorem openTemp_meets (tries count : Nat) :
    (openTemp base.dropLast (base.getLastD []) stamp process text tries count).Meets files
      (Grows (IsTemp base stamp process) files)
      (fun temp => Opened base stamp text process temp files) fun _ => True := by
  have folder (files : Files) : (createDirAll base.dropLast).Meets files
      (Grows (IsTemp base stamp process) files) (fun _ => Grows (fun _ => False) files)
        fun _ => True :=
    createDirAll_meets (fun _ grows => grows.mono fun _ no => no.elim) (fun _ grows => grows)
      fun _ _ => trivial
  -- from the folder on, a program that opens the file opens it from before
  have from_ {files made : Files} {program : Io Place} {failed : Files → Prop}
      (grows : Grows (fun _ => False) files made)
      (meets : program.Meets made (Grows (IsTemp base stamp process) made)
        (fun temp => Opened base stamp text process temp made) failed) :
      program.Meets made (Grows (IsTemp base stamp process) files)
        (fun temp => Opened base stamp text process temp files) failed :=
    meets.mono (fun _ => (grows.mono fun _ no => no.elim).trans) (fun _ _ => .trans grows)
      fun _ ended => ended
  have file (count : Nat) (made : Files) :
      (writeNew (tempPlace base stamp process count) text).Meets made
        (Grows (IsTemp base stamp process) made)
        (fun _ => Opened base stamp text process (tempPlace base stamp process count) made)
        fun after => after = made :=
    writeNew_meets (fun _ beside => (Grows.refl _ made).at_place beside.free
      (fun _ => ⟨count, rfl⟩) beside.others) (fun _ => .of_beside) rfl
  induction tries generalizing count files with
  | zero =>
      refine Io.meets_bind _ (folder files) fun _ made grows => from_ grows ?_
      exact Io.meets_bind _ ((file count made).mono (fun _ grows => grows) (fun _ _ opened => opened)
        fun _ _ => trivial) fun _ _ opened => Io.meets_pure opened
  | succ tries induction =>
      refine Io.meets_bind _ (folder files) fun _ made grows => from_ grows ?_
      refine Io.meets_attempt _ _ (file count made) (fun _ _ opened => Io.meets_pure opened) ?_
      rintro error _ rfl
      simp only
      split_ifs
      · exact induction (count + 1)
      · exact Io.meets_fail trivial

/-- Only the kept file is new, with the text in it. -/
structure Placed (base : Place) (stamp text : Text) (file : Place) (files after : Files) :
    Prop extends Beside file files after where
  isKept : ∃ number, file = keptPlace base stamp number
  held : after.node file = some (.file text)

theorem placeFrom_meets (links : Nat → Bool) (left n : Nat)
    (held : files.node temp = some (.file text)) :
    (placeFrom links temp base.dropLast (base.getLastD []) stamp text left n).Meets files
      (fun state => ∃ number, Beside (keptPlace base stamp number) files state)
      (fun file => Placed base stamp text file files) fun after => after = files := by
  induction left generalizing n with
  | zero => exact Io.meets_fail rfl
  | succ left induction =>
      have linked : (Io.step (Files.hardLink (links n) temp (keptPlace base stamp n))).Meets files
          (fun state => ∃ number, Beside (keptPlace base stamp number) files state)
          (fun _ => Placed base stamp text (keptPlace base stamp n) files)
          fun after => after = files := by
        refine Io.meets_step (fun after linked => ?_) fun _ _ => rfl
        obtain ⟨free, own, others⟩ := Files.hardLink_ok linked
        rw [Files.text?_eq_some_iff.mpr held, Files.text?_eq_some_iff] at own
        exact ⟨⟨n, free, others⟩, ⟨free, others⟩, ⟨n, rfl⟩, own⟩
      -- without a link the text is written to the name itself
      have written : (writeNew (keptPlace base stamp n) text).Meets files
          (fun state => ∃ number, Beside (keptPlace base stamp number) files state)
          (fun _ => Placed base stamp text (keptPlace base stamp n) files)
          fun after => after = files :=
        writeNew_meets (fun _ beside => ⟨n, beside⟩)
          (fun _ beside held => ⟨beside, ⟨n, rfl⟩, held⟩) rfl
      refine Io.meets_attempt _ _ linked (fun _ _ placed => Io.meets_pure placed) ?_
      intro error after same
      rw [same]
      cases error
      case alreadyExists => exact induction (n + 1)
      all_goals
        refine Io.meets_attempt _ _ written (fun _ _ placed => Io.meets_pure placed) ?_
        intro error after same
        rw [same]
        cases error
        case alreadyExists => exact induction (n + 1)
        all_goals exact Io.meets_fail rfl

/-- A text is kept: it is at a kept name that was free, and there is no other change. -/
theorem write_meets (process count : Nat) (links : Nat → Bool) (domain : Text)
    (owner : Option Text) (kind : KeptKind) (path : Text) (time : Time) (text : Text)
    (isBase : base = placeOf domain owner kind path) (isStamp : stamp = host.clock.format time) :
    (write host process count links domain owner kind path time text).Meets files
      (fun state => ∃ number, Grows (fun place => IsTemp base stamp process place ∨
        place = keptPlace base stamp number) files state)
      (fun file after => (∃ number, file = keptPlace base stamp number) ∧
        Has file text files after) fun _ => True := by
  unfold write
  split_ifs
  · exact Io.meets_fail trivial
  · dsimp only
    rw [← isBase, ← isStamp]
    have early {number : Nat} {state : Files} (grows : Grows (IsTemp base stamp process) files state) :
        Grows (fun place => IsTemp base stamp process place ∨ place = keptPlace base stamp number)
          files state := grows.mono fun _ isTemp => .inl isTemp
    refine Io.meets_bind _ ((openTemp_meets openTries count).mono (fun _ grows => ⟨1, early grows⟩)
      (fun _ _ opened => opened) fun _ ended => ended) fun temp left opened => ?_
    have grown := opened.grows.mono fun _ same => same ▸ opened.isTemp
    have both {number : Nat} {state : Files} (beside : Beside (keptPlace base stamp number) left state) :
        Grows (fun place => IsTemp base stamp process place ∨ place = keptPlace base stamp number)
          files state :=
      (early grown).at_place (grown.node_eq_none beside.free) (fun _ => .inr rfl) beside.others
    have removed {after : Files} {number : Nat} (held : after.node temp = some (.file text))
        (grows : Grows (fun place => IsTemp base stamp process place ∨
          place = keptPlace base stamp number) files after) :
        (Io.step (Files.removeFile temp)).Meets after
          (fun state => ∃ number, Grows (fun place => IsTemp base stamp process place ∨
            place = keptPlace base stamp number) files state)
          (fun _ last => last.node temp = none ∧ ∀ other, other ≠ temp →
            last.node other = after.node other) fun _ => False := by
      obtain ⟨last, gone, none, others⟩ := Files.removeFile_eq held
      refine Io.meets_step (fun state changed => ?_) fun _ refused => by cases gone.symm.trans refused
      obtain rfl := Except.ok.inj (gone.symm.trans changed)
      refine ⟨⟨number, grows.at_place opened.free (fun some => ?_) others⟩, none, others⟩
      rw [Files.text?, none] at some
      exact absurd rfl some
    refine Io.meets_attempt _ _ ((placeFrom_meets links counterEnd 1 opened.held).mono
      (fun _ beside => beside.imp fun _ => both) (fun _ _ placed => placed) fun _ same => same) ?_ ?_
    · rintro file after ⟨⟨free, others⟩, ⟨number, rfl⟩, held⟩
      have apart : temp ≠ keptPlace base stamp number := by
        rintro rfl
        cases opened.held.symm.trans free
      refine Io.meets_attempt _ _ (removed ((others temp apart).trans opened.held)
        (both ⟨free, others⟩)) ?_ fun _ _ no => no.elim
      rintro _ last ⟨none, kept⟩
      refine Io.meets_pure ⟨⟨number, rfl⟩, opened.grows.node_eq_none free, fun place => ?_,
        fun place some => ?_⟩
      · split_ifs with own
        · rw [Files.text?_eq_some_iff, own, kept _ apart.symm, held]
        · by_cases temporary : place = temp
          · rw [Files.text?, Files.text?, temporary, none, opened.free]
          · rw [← opened.grows.text?_eq temporary, Files.text?, kept place temporary, others place own]
            rfl
      · have temporary : place ≠ temp := fun same => some (same ▸ opened.free)
        have own : place ≠ keptPlace base stamp number := fun same =>
          some (same ▸ opened.grows.node_eq_none free)
        rw [kept place temporary, others place own, opened.grows.stays place some]
    · rintro error after rfl
      exact Io.meets_attempt _ _ (removed opened.held (@early 1 _ grown))
        (fun _ _ _ => Io.meets_fail trivial) fun _ _ no => no.elim

end Keeping

/-- The temporary name of a sender's record. -/
def senderTemp (file : Place) (process count : Nat) : Place :=
  appendName (senderFile file)
    ('.' :: decimal process ++ '-' :: decimal count ++ tempSuffix)

theorem appendName_ne {suffix : Text} (present : suffix ≠ []) :
    appendName place suffix ≠ place := by
  intro same
  have last := congrArg (·.getLastD []) same
  rw [appendName] at last
  simp only [List.getLastD_concat] at last
  exact present (List.append_cancel_left (last.trans (List.append_nil _).symm))

theorem removeFile_error {files : Files} (no : files.text? place = none) :
    ∃ error, Files.removeFile place files = .error error := by
  unfold Files.removeFile
  split
  · rename_i content found
    rw [Files.text?_eq_some_iff.mpr found] at no
    cases no
  · exact ⟨_, rfl⟩
  · exact ⟨_, rfl⟩

/-- A sender's record is at its place, whatever stood there, or nothing is different. -/
theorem recordSender_meets (process count : Nat) (file : Place) (sender : Sender)
    (clear : files.text? (senderTemp file process count) = none) :
    (recordSender host process count file sender).Meets files (fun _ => True)
      (fun _ after => ∀ place, after.text? place =
        if place = senderFile file then some (host.toJson sender) else files.text? place)
      fun after => ∀ place, after.text? place = files.text? place := by
  have apart : senderTemp file process count ≠ senderFile file :=
    appendName_ne (List.cons_ne_nil _ _)
  unfold recordSender
  dsimp only
  rw [← senderTemp]
  generalize senderTemp file process count = temp at clear apart
  -- the texts where only the temporary file may be different, and is gone
  have texts {after : Files} (gone : after.text? temp = none)
      (others : ∀ other, other ≠ temp → after.node other = files.node other) (place : Place) :
      after.text? place = files.text? place := by
    by_cases temporary : place = temp
    · rw [temporary, gone, clear]
    · rw [Files.text?, others place temporary]
      rfl
  have written : (do
      writeNew temp (host.toJson sender)
      Io.step (Files.renameFile temp (senderFile file)) : Io Unit).Meets files (fun _ => True)
        (fun _ after => ∀ place, after.text? place =
          if place = senderFile file then some (host.toJson sender) else files.text? place)
        fun after => ∀ other, other ≠ temp → after.node other = files.node other := by
    refine Io.meets_bind (fun _ made => Beside temp files made ∧
      made.node temp = some (.file (host.toJson sender)))
      (writeNew_meets (fun _ _ => trivial) (fun _ beside held => ⟨beside, held⟩) fun _ _ => rfl) ?_
    rintro _ made ⟨beside, held⟩
    refine Io.meets_step (fun after renamed => ⟨trivial, fun place => ?_⟩) fun _ _ => beside.others
    obtain ⟨own, gone, others⟩ := Files.renameFile_ok renamed apart
    split_ifs with target
    · rw [target, own, Files.text?_eq_some_iff, held]
    · by_cases temporary : place = temp
      · rw [temporary, Files.text?, gone, clear]
      · rw [Files.text?, others place temporary target, beside.others place temporary]
        rfl
  refine Io.meets_attempt _ _ written (fun _ _ named => Io.meets_pure named) fun _ after others => ?_
  refine Io.meets_attempt (fun _ last => ∀ place, last.text? place = files.text? place)
    (fun last => ∀ place, last.text? place = files.text? place) ?_
    (fun _ _ same => Io.meets_fail same) fun _ _ same => Io.meets_fail same
  cases held : after.text? temp with
  | none =>
      refine Io.meets_step (fun last removed => ?_) fun _ _ => texts held others
      obtain ⟨error, refused⟩ := removeFile_error held
      cases refused.symm.trans removed
  | some content =>
      obtain ⟨last, removed, gone, kept⟩ := Files.removeFile_eq (Files.text?_eq_some_iff.mp held)
      refine Io.meets_step (fun state changed => ⟨trivial, ?_⟩) fun _ refused => ?_
      · obtain rfl := Except.ok.inj (removed.symm.trans changed)
        refine texts (by rw [Files.text?, gone]) fun other unlike => ?_
        rw [kept other unlike, others other unlike]
      · cases removed.symm.trans refused

/-- The domain's texts are at a name that was free. -/
structure SetAside (domain stamp : Text) (files after : Files) (target : Place) : Prop where
  isName : ∃ number, target = [removedDir, removedName domain stamp number]
  free : files.node target = none
  texts : ∀ place, after.text? place =
    if target <+: place then files.text? (domain :: place.drop 2)
    else if [domain] <+: place then none
    else files.text? place

theorem setAsideFrom_meets (domain stamp : Text) (left n : Nat) :
    (setAsideFrom [domain] domain stamp left n).Meets files (fun _ => True)
      (fun target after => ∃ place, target = some place ∧ SetAside domain stamp files after place)
      fun after => after = files := by
  induction left generalizing n with
  | zero => exact Io.meets_fail rfl
  | succ left induction =>
      refine Io.meets_bind (fun _ after => after = files) (Io.meets_reads rfl) ?_
      rintro taken after rfl
      split_ifs
      · exact induction (n + 1)
      · refine Io.meets_bind (fun _ moved => SetAside domain stamp after moved
          [removedDir, removedName domain stamp n]) (Io.meets_step (fun moved renamed => ?_)
            fun _ _ => rfl) fun _ _ moved => Io.meets_pure ⟨_, rfl, moved⟩
        obtain ⟨-, free, -, nodes⟩ := Files.renameFolder_ok renamed
        refine ⟨trivial, ⟨n, rfl⟩, free, fun place => ?_⟩
        simp only [Files.text?, nodes]
        split_ifs <;> rfl

/-- What has no folder of kept texts: no domain, or a domain that kept nothing. -/
def KeptNothing (domain : Text) (files : Files) : Prop :=
  domain = [] ∨ startsWith domain ['.'] = true ∨
    domain.any (fun char => char ∈ ['/', '\\']) = true ∨ files.node [domain] ≠ some .folder

/-- Only a domain's own folder is moved, and to a name that is free. -/
theorem setAside_meets (domain : Text) (time : Time) :
    (setAside host domain time).Meets files (fun _ => True)
      (fun target after => match target with
        | none => KeptNothing domain files ∧ ∀ place, after.text? place = files.text? place
        | some place => ¬ KeptNothing domain files ∧
          SetAside domain (host.clock.format time) files after place)
      fun after => ∀ place, after.text? place = files.text? place := by
  refine Io.meets_bind (fun isDir after => after = files ∧
    isDir = decide (files.IsFolder [domain])) (Io.meets_reads ⟨rfl, rfl⟩) ?_
  rintro _ start ⟨rfl, rfl⟩
  have nothing : (domain.isEmpty || startsWith domain ['.'] ||
      domain.any (fun char => char ∈ ['/', '\\']) ||
        !decide (start.IsFolder [domain])) = true ↔ KeptNothing domain start := by
    simp only [Bool.or_eq_true, List.isEmpty_iff, Bool.not_eq_true', decide_eq_false_iff_not,
      KeptNothing, or_assoc, Files.IsFolder, List.cons_ne_nil, false_or]
  have same {after : Files} (grows : Grows (fun _ => False) start after) (place : Place) :
      after.text? place = start.text? place := grows.text?_eq fun no => no
  split_ifs with refused
  · exact Io.meets_pure ⟨nothing.mp refused, fun _ => rfl⟩
  · refine Io.meets_bind (fun _ => Grows (fun _ => False) start) (createDirAll_meets
      (fun _ _ => trivial) (fun _ grows => grows) fun _ => same) fun _ made grows => ?_
    refine (setAsideFrom_meets domain _ counterEnd 1).mono (fun _ _ => trivial) ?_ ?_
    · rintro _ after ⟨place, rfl, isName, free, texts⟩
      refine ⟨mt nothing.mpr refused, isName, grows.node_eq_none free, fun other => ?_⟩
      rw [← same grows, ← same grows]
      exact texts other
    · rintro _ rfl
      exact same grows

end Crystalline.Kept
