import Crystalline.Overlay.Edits

/-!
# Runs of calls

The journal against the map it is meant to be: after any run of calls that
return each actor and path holds what the last call there asked for, and one
more call, wherever it is cut off, disturbs nothing but its own entry.
-/

namespace Crystalline.Overlay

open Text Programs

section

variable {host : Host} {stateDir : Place} {domain actor path : Text} {file : Place}
  {disk now last : FileSystem} {edit : Edit} {edits : List Edit}
  {draft sidecar after : Option Bytes} {pair : Option Bytes × Option Bytes}

/-- An entry's two files hold a pair, and no file but the four of the entry
differs. -/
structure Holding (host : Host) (file : Place) (pair : Option Bytes × Option Bytes)
    (disk now : FileSystem) : Prop where
  others : ∀ place, place ∉ touched host file → now.files.lookup place = disk.files.lookup place
  draft : now.files.lookup file = pair.1
  sidecar : now.files.lookup (tombstoneOf file) = pair.2

theorem Holding.start (host : Host) (file : Place) (disk : FileSystem) :
    Holding host file (disk.files.lookup file, disk.files.lookup (tombstoneOf file)) disk disk :=
  ⟨fun _ _ => rfl, rfl, rfl⟩

variable {places : List Place}

theorem Partway.cases (partway : Partway places file after now last) :
    Through places file (now.files.lookup file) now last ∨ Through places file after now last := by
  obtain ⟨others, old | new⟩ := partway
  · exact .inl ⟨others, old⟩
  · exact .inr ⟨others, new⟩

section

variable (holding : Holding host file (draft, sidecar) disk now)
  (inside : places ⊆ touched host file)
include holding inside

theorem Holding.ofDraft (aside : tombstoneOf file ∉ places)
    (through : Through places file after now last) : Holding host file (after, sidecar) disk last :=
  ⟨fun place outside => (through.others place (mt (@inside place) outside)).trans
    (holding.others place outside), through.content,
    (through.others _ aside).trans holding.sidecar⟩

theorem Holding.ofSidecar (aside : file ∉ places)
    (through : Through places (tombstoneOf file) after now last) :
    Holding host file (draft, after) disk last :=
  ⟨fun place outside => (through.others place (mt (@inside place) outside)).trans
    (holding.others place outside), (through.others _ aside).trans holding.draft,
    through.content⟩

end

/-- A step that is cut off leaves the old pair or the new one. -/
abbrev Between (host : Host) (file : Place) (old new : Option Bytes × Option Bytes)
    (disk last : FileSystem) : Prop :=
  Holding host file old disk last ∨ Holding host file new disk last

section Steps

variable {program : OnFiles Unit} {places : List Place}

section

variable (holding : Holding host file (draft, sidecar) disk now)
  (inside : places ⊆ touched host file)
include holding inside

theorem Holding.stepDraft (aside : tombstoneOf file ∉ places)
    (leaves : Ensures fileAnswers (Finishes (Partway places file after now)
      fun _ last => Through places file after now last) program now) :
    Ensures fileAnswers
      (Finishes (Between host file (draft, sidecar) (after, sidecar) disk)
        fun _ last => Holding host file (after, sidecar) disk last) program now := by
  have settled : ∀ last, Partway places file after now last →
      Between host file (draft, sidecar) (after, sidecar) disk last := by
    intro last partway
    rcases partway.cases with old | new
    · rw [holding.draft] at old
      exact .inl (holding.ofDraft inside aside old)
    · exact .inr (holding.ofDraft inside aside new)
  refine leaves.mono fun ending last left => ?_
  cases ending with
  | returned value => exact holding.ofDraft inside aside left
  | failed error => exact settled last left
  | cut => exact settled last left

theorem Holding.stepSidecar (aside : file ∉ places)
    (leaves : Ensures fileAnswers (Finishes (Partway places (tombstoneOf file) after now)
      fun _ last => Through places (tombstoneOf file) after now last) program now) :
    Ensures fileAnswers
      (Finishes (Between host file (draft, sidecar) (draft, after) disk)
        fun _ last => Holding host file (draft, after) disk last) program now := by
  have settled : ∀ last, Partway places (tombstoneOf file) after now last →
      Between host file (draft, sidecar) (draft, after) disk last := by
    intro last partway
    rcases partway.cases with old | new
    · rw [holding.sidecar] at old
      exact .inl (holding.ofSidecar inside aside old)
    · exact .inr (holding.ofSidecar inside aside new)
  refine leaves.mono fun ending last left => ?_
  cases ending with
  | returned value => exact holding.ofSidecar inside aside left
  | failed error => exact settled last left
  | cut => exact settled last left

end

/-- The four names, one from the other. -/
structure Apart (host : Host) (file : Place) : Prop where
  named : file ≠ []
  sidecar : tombstoneOf file ≠ file
  draftTemp : tempSibling host file ≠ file
  sidecarTemp : tempSibling host (tombstoneOf file) ≠ tombstoneOf file
  draftTempSidecar : tempSibling host file ≠ tombstoneOf file
  sidecarTempDraft : tempSibling host (tombstoneOf file) ≠ file

theorem apart_of_entryPath (found : entryPath host stateDir domain actor path = .ok file) :
    Apart host file := by
  have distinct := nodup_touched found
  obtain ⟨admitted, folder, isFolder, rfl⟩ := admitted_of_entryPath found
  simp only [touched, List.nodup_cons, List.mem_cons, List.not_mem_nil, or_false, not_or] at distinct
  obtain ⟨⟨first, second, third⟩, ⟨fourth, fifth⟩, -⟩ := distinct
  exact ⟨by simp, Ne.symm first, Ne.symm second, Ne.symm fifth, Ne.symm fourth, Ne.symm third⟩

section

variable (holding : Holding host file (draft, sidecar) disk now) (apart : Apart host file)
include holding apart

theorem Holding.saveDraft (bytes : Bytes) :
    Ensures fileAnswers
      (Finishes (Between host file (draft, sidecar) (some bytes, sidecar) disk)
        fun _ last => Holding host file (some bytes, sidecar) disk last)
      (save host file bytes) now :=
  holding.stepDraft (by simp [touched])
    (by simp [apart.sidecar, apart.draftTempSidecar.symm]) (save_leaves apart.draftTemp)

theorem Holding.saveSidecar (bytes : Bytes) :
    Ensures fileAnswers
      (Finishes (Between host file (draft, sidecar) (draft, some bytes) disk)
        fun _ last => Holding host file (draft, some bytes) disk last)
      (save host (tombstoneOf file) bytes) now :=
  holding.stepSidecar (by simp [touched])
    (by simp [apart.sidecar.symm, apart.sidecarTempDraft.symm]) (save_leaves apart.sidecarTemp)

theorem Holding.removeDraft :
    Ensures fileAnswers
      (Finishes (Between host file (draft, sidecar) (none, sidecar) disk)
        fun _ last => Holding host file (none, sidecar) disk last)
      (removeEntryIfPresent host file) now :=
  holding.stepDraft (by simp [touched]) (by simp [apart.sidecar])
    (removeEntryIfPresent_leaves apart.named)

theorem Holding.removeSidecar :
    Ensures fileAnswers
      (Finishes (Between host file (draft, sidecar) (draft, none) disk)
        fun _ last => Holding host file (draft, none) disk last)
      (removeEntryIfPresent host (tombstoneOf file)) now :=
  holding.stepSidecar (by simp [touched]) (by simp [apart.sidecar.symm])
    (removeEntryIfPresent_leaves (by simp [tombstoneOf, extendName]))

end

end Steps

/-- A file system a call passes through: one of its pairs, and all other files as
they were. -/
def OnTheWay (host : Host) (change : Change) (file : Place) (disk last : FileSystem) : Prop :=
  ∃ pair ∈ change.pairs (disk.files.lookup file) (disk.files.lookup (tombstoneOf file)),
    Holding host file pair disk last

theorem Ensures.onTheWay (change : Change) {old new : Option Bytes × Option Bytes}
    {program : OnFiles Unit}
    (isOld : old ∈ change.pairs (disk.files.lookup file) (disk.files.lookup (tombstoneOf file)))
    (isNew : new ∈ change.pairs (disk.files.lookup file) (disk.files.lookup (tombstoneOf file)))
    (step : Ensures fileAnswers (Finishes (Between host file old new disk)
      fun _ last => Holding host file new disk last) program now) :
    Ensures fileAnswers (Finishes (OnTheWay host change file disk)
      fun _ last => Holding host file new disk last) program now := by
  have settled : ∀ last, Between host file old new disk last →
      OnTheWay host change file disk last := by
    rintro last (kept | done)
    · exact ⟨old, isOld, kept⟩
    · exact ⟨new, isNew, done⟩
  refine step.mono fun ending last left => ?_
  cases ending with
  | returned value => exact left
  | failed error => exact settled last left
  | cut => exact settled last left

/-- A call that returns leaves its pair; a call that does not leaves one of the
pairs on the way. -/
theorem perform_leaves
    (found : entryPath host stateDir domain edit.actor edit.path = .ok file) :
    Ensures fileAnswers (Finishes (OnTheWay host edit.change file disk)
      fun _ last => Holding host file edit.change.pair disk last)
      (perform host stateDir domain edit) disk := by
  have apart := apart_of_entryPath found
  have start := Holding.start host file disk
  unfold perform
  cases change : edit.change with
  | write content =>
      dsimp only
      rw [journalWrite, found]
      change Ensures _ _ (save host file (toUtf8 content) >>= fun _ =>
        removeEntryIfPresent host (tombstoneOf file)) disk
      refine Ensures.andThen (Ensures.onTheWay (.write content) (by simp [Change.pairs]) (by simp [Change.pairs])
        (start.saveDraft apart (toUtf8 content))) fun _ middle saved => ?_
      exact Ensures.onTheWay (.write content) (by simp [Change.pairs]) (by simp [Change.pairs, Change.pair])
        (saved.removeSidecar apart)
  | tombstone =>
      dsimp only
      rw [journalTombstone, found]
      change Ensures _ _ (removeEntryIfPresent host file >>= fun _ =>
        save host (tombstoneOf file) []) disk
      refine Ensures.andThen (Ensures.onTheWay .tombstone (by simp [Change.pairs]) (by simp [Change.pairs])
        (start.removeDraft apart)) fun _ middle removed => ?_
      exact Ensures.onTheWay .tombstone (by simp [Change.pairs]) (by simp [Change.pairs, Change.pair])
        (removed.saveSidecar apart [])
  | clear =>
      dsimp only
      rw [journalClear, found]
      change Ensures _ _ (removeEntryIfPresent host (tombstoneOf file) >>= fun _ =>
        removeEntryIfPresent host file >>= fun _ => _) disk
      refine Ensures.andThen (Ensures.onTheWay .clear (by simp [Change.pairs]) (by simp [Change.pairs])
        (start.removeSidecar apart)) fun _ middle removed => ?_
      refine Ensures.andThen (Ensures.onTheWay .clear (by simp [Change.pairs])
        (by simp [Change.pairs, Change.pair]) (removed.removeDraft apart)) fun _ bare cleared => ?_
      have way : OnTheWay host .clear file disk bare :=
        ⟨(none, none), by simp [Change.pairs, Change.pair], cleared⟩
      cases actorDir host stateDir domain edit.actor with
      | error error => exact ⟨way, way⟩
      | ok stop =>
          refine (pruneEmpty_leaves file.dropLast.inits.reverse way).mono fun ending last left => ?_
          cases ending with
          | returned value =>
              obtain rfl : last = bare := left
              exact cleared
          | failed error => exact left
          | cut => exact left

theorem perform_refused {error : IoError}
    (refused : entryPath host stateDir domain edit.actor edit.path = .error error) :
    Ensures fileAnswers (Finishes (fun last => last = disk) fun _ _ => False)
      (perform host stateDir domain edit) disk := by
  unfold perform
  cases edit.change with
  | write content =>
      dsimp only
      rw [journalWrite, refused]
      exact ⟨rfl, rfl⟩
  | tombstone =>
      dsimp only
      rw [journalTombstone, refused]
      exact ⟨rfl, rfl⟩
  | clear =>
      dsimp only
      rw [journalClear, refused]
      exact ⟨rfl, rfl⟩

theorem held_eq_readPair (found : entryPath host stateDir domain actor path = .ok file)
    (disk : FileSystem) : held host disk stateDir domain actor path =
      readPair (disk.files.lookup file, disk.files.lookup (tombstoneOf file)) := by
  rw [held, found, readPair]
  dsimp only
  cases (disk.files.lookup file).bind fromUtf8 with
  | some text => rfl
  | none => simp only [AList.lookup_isSome]

theorem Holding.reads (holding : Holding host file pair disk last)
    (found : entryPath host stateDir domain actor path = .ok file) :
    held host last stateDir domain actor path = readPair pair := by
  rw [held_eq_readPair found, holding.draft, holding.sidecar]

theorem Holding.reads_other {other otherPath : Text} (holding : Holding host file pair disk last)
    (found : entryPath host stateDir domain actor path = .ok file)
    (different : ¬ (other = actor ∧ otherPath = path)) :
    held host last stateDir domain other otherPath =
      held host disk stateDir domain other otherPath := by
  cases isOther : entryPath host stateDir domain other otherPath with
  | error error => rw [held, held, isOther]
  | ok otherFile =>
      obtain ⟨draftAside, sidecarAside⟩ := outside_touched found isOther different
      rw [held_eq_readPair isOther, held_eq_readPair isOther, holding.others _ draftAside,
        holding.others _ sidecarAside]

/-- What a read of the journal lists for an actor and a path. -/
def contentsAt (read : JournalRead) (actor path : Text) : List (Option Text) :=
  (read.entries.filter fun entry => entry.actor = actor ∧ entry.path = path).map
    JournalEntry.content

/-- The journal lists what is held, once. -/
theorem contentsAt_eq (host : Host) (listing : Listing) (disk : FileSystem) (stateDir : Place)
    (domain actor path : Text) :
    contentsAt (journalEntries host listing disk stateDir domain) actor path =
      (held host disk stateDir domain actor path).toList := by
  have ordered := pairwise_entries host listing disk stateDir domain
  have listed : ∀ entry, entry ∈ (journalEntries host listing disk stateDir domain).entries.filter
      (fun entry => entry.actor = actor ∧ entry.path = path) ↔
        held host disk stateDir domain entry.actor entry.path = some entry.content ∧
          entry.actor = actor ∧ entry.path = path := by
    intro entry
    rw [List.mem_filter, mem_entries, decide_eq_true_iff]
  have orderedHere := ordered.filter fun entry => entry.actor = actor ∧ entry.path = path
  unfold contentsAt
  cases found : (journalEntries host listing disk stateDir domain).entries.filter
      fun entry => entry.actor = actor ∧ entry.path = path with
  | nil =>
      have nothing : held host disk stateDir domain actor path = none := by
        refine Option.eq_none_iff_forall_ne_some.mpr fun content isHeld => ?_
        have member := (listed ⟨actor, path, content⟩).mpr ⟨isHeld, rfl, rfl⟩
        rw [found] at member
        cases member
      rw [nothing]
      rfl
  | cons first rest =>
      rw [found] at listed orderedHere
      obtain ⟨isHeld, rfl, rfl⟩ := (listed first).mp List.mem_cons_self
      cases rest with
      | nil =>
          rw [isHeld]
          rfl
      | cons second rest =>
          obtain ⟨-, sameActor, samePath⟩ :=
            (listed second).mp (List.mem_cons_of_mem _ List.mem_cons_self)
          have below := (List.pairwise_cons.mp orderedHere).1 second List.mem_cons_self
          rw [key_eq_iff.mpr ⟨sameActor, samePath⟩] at below
          exact absurd below (lt_irrefl _)

/-- What a call for one entry leaves of everything else. -/
structure LeavesOthers (host : Host) (stateDir : Place) (domain : Text) (edit : Edit)
    (disk last : FileSystem) : Prop where
  entries : ∀ before after actor path, ¬ (actor = edit.actor ∧ path = edit.path) →
    contentsAt (journalEntries host after last stateDir domain) actor path =
      contentsAt (journalEntries host before disk stateDir domain) actor path
  attachments : ∀ actor path file, assetFile host stateDir domain actor path = .ok file →
    last.files.lookup file = disk.files.lookup file ∧
      last.files.lookup (tombstoneOf file) = disk.files.lookup (tombstoneOf file)
  files : ∀ place, (∀ file, entryPath host stateDir domain edit.actor edit.path = .ok file →
    place ∉ touched host file) → last.files.lookup place = disk.files.lookup place

theorem LeavesOthers.refl (host : Host) (stateDir : Place) (domain : Text) (edit : Edit)
    (disk : FileSystem) : LeavesOthers host stateDir domain edit disk disk :=
  ⟨fun before after actor path _ => by rw [contentsAt_eq, contentsAt_eq],
    fun _ _ _ _ => ⟨rfl, rfl⟩, fun _ _ => rfl⟩

theorem Holding.leavesOthers (holding : Holding host file pair disk last)
    (found : entryPath host stateDir domain edit.actor edit.path = .ok file) :
    LeavesOthers host stateDir domain edit disk last := by
  refine ⟨fun before after actor path different => ?_, fun actor path asset isAsset => ?_,
    fun place outside => holding.others place (outside file found)⟩
  · rw [contentsAt_eq, contentsAt_eq, holding.reads_other found different]
  · obtain ⟨aside, sidecarAside⟩ := asset_outside_touched found isAsset
    exact ⟨holding.others _ aside, holding.others _ sidecarAside⟩

/-- However a call ends, nothing else changes, and its own entry is as it was, as
it is to be, or absent. -/
theorem perform_run {ending : Ending IoError Unit}
    (run : Runs fileAnswers disk (perform host stateDir domain edit) ending last) :
    LeavesOthers host stateDir domain edit disk last ∧
      (held host last stateDir domain edit.actor edit.path =
          held host disk stateDir domain edit.actor edit.path ∨
        held host last stateDir domain edit.actor edit.path = edit.change.holds ∨
          held host last stateDir domain edit.actor edit.path = none) ∧
      (ending = .returned () →
        held host last stateDir domain edit.actor edit.path = edit.change.holds) := by
  cases found : entryPath host stateDir domain edit.actor edit.path with
  | error error =>
      have ended := (perform_refused found).of_run run
      have unchanged : last = disk := by
        cases ending with
        | returned value => exact ended.elim
        | failed error => exact ended
        | cut => exact ended
      subst unchanged
      refine ⟨LeavesOthers.refl host stateDir domain edit last, .inl rfl, ?_⟩
      rintro rfl
      exact ended.elim
  | ok file =>
      have ended := (perform_leaves found).of_run run
      have onTheWay : OnTheWay host edit.change file disk last := by
        cases ending with
        | returned value =>
            refine ⟨edit.change.pair, ?_, ended⟩
            cases edit.change <;> simp [Change.pairs]
        | failed error => exact ended
        | cut => exact ended
      obtain ⟨pair, member, holding⟩ := onTheWay
      refine ⟨holding.leavesOthers found, ?_, ?_⟩
      · rw [holding.reads found, held_eq_readPair found disk]
        exact readPair_pairs member
      · rintro rfl
        have done : Holding host file edit.change.pair disk last := ended
        rw [done.reads found, readPair_pair]

end

variable {host : Host} {stateDir : Place} {domain : Text} {disk middle last : FileSystem}
  {edit : Edit} {edits : List Edit}

/-- Calls that all return, one after the other. -/
inductive Journaled (host : Host) (stateDir : Place) (domain : Text) :
    FileSystem → List Edit → FileSystem → Prop where
  | nil {disk : FileSystem} : Journaled host stateDir domain disk [] disk
  | cons {disk middle last : FileSystem} {edit : Edit} {edits : List Edit}
      (call : Runs fileAnswers disk (perform host stateDir domain edit) (.returned ()) middle)
      (rest : Journaled host stateDir domain middle edits last) :
      Journaled host stateDir domain disk (edit :: edits) last

/-- What the last call for an actor and a path asked for. -/
def lastChange (edits : List Edit) (actor path : Text) : Option Change :=
  ((edits.filter fun edit => edit.actor = actor ∧ edit.path = path).getLast?).map Edit.change

/-- The map the journal is meant to be. -/
def lastWriteWins (start : Option (Option Text)) (edits : List Edit) (actor path : Text) :
    Option (Option Text) :=
  match lastChange edits actor path with
  | some change => change.holds
  | none => start

theorem lastWriteWins_cons (start : Option (Option Text)) (edit : Edit) (edits : List Edit)
    (actor path : Text) :
    lastWriteWins start (edit :: edits) actor path =
      lastWriteWins (if edit.actor = actor ∧ edit.path = path then edit.change.holds else start)
        edits actor path := by
  unfold lastWriteWins lastChange
  by_cases same : edit.actor = actor ∧ edit.path = path
  · rw [List.filter_cons_of_pos (by simpa using same), if_pos same, List.getLast?_cons]
    cases (edits.filter fun edit => edit.actor = actor ∧ edit.path = path).getLast? <;> rfl
  · rw [List.filter_cons_of_neg (by simpa using same), if_neg same]

theorem Journaled.held (run : Journaled host stateDir domain disk edits last) (actor path : Text) :
    held host last stateDir domain actor path =
      lastWriteWins (held host disk stateDir domain actor path) edits actor path := by
  induction run with
  | nil => rfl
  | @cons disk middle last edit edits call rest induction =>
      rw [induction, lastWriteWins_cons]
      congr 1
      obtain ⟨others, -, done⟩ := perform_run call
      split
      · next same =>
          obtain ⟨rfl, rfl⟩ := same
          exact done rfl
      · next different =>
          have listing : Listing := ⟨fun _ names => names, fun _ names => List.Perm.refl names⟩
          have same := others.entries listing listing actor path
            fun same => different ⟨same.1.symm, same.2.symm⟩
          rw [contentsAt_eq, contentsAt_eq] at same
          refine Option.ext fun content => ?_
          rw [← Option.mem_toList, same, Option.mem_toList]

theorem written_of_lastWriteWins {start : Option (Option Text)} {actor path text : Text}
    (holds : lastWriteWins start edits actor path = some (some text)) :
    start = some (some text) ∨ ⟨actor, path, .write text⟩ ∈ edits := by
  unfold lastWriteWins lastChange at holds
  cases found : (edits.filter fun edit => edit.actor = actor ∧ edit.path = path).getLast? with
  | none =>
      rw [found] at holds
      exact .inl holds
  | some edit =>
      rw [found] at holds
      obtain ⟨member, isEdit⟩ := List.mem_filter.mp (List.mem_of_getLast? found)
      obtain ⟨rfl, rfl⟩ := of_decide_eq_true isEdit
      obtain ⟨actor, path, change⟩ := edit
      cases change with
      | write content =>
          obtain rfl : content = text := Option.some.inj (Option.some.inj holds)
          exact .inr member
      | tombstone => cases holds
      | clear => cases holds

/-- What a read lists at the end of a run. -/
def contentsAfter (read : JournalRead) (edits : List Edit) (actor path : Text) :
    List (Option Text) :=
  match lastChange edits actor path with
  | some change => change.holds.toList
  | none => contentsAt read actor path

theorem contentsAfter_eq (host : Host) (listing : Listing) (disk : FileSystem) (stateDir : Place)
    (domain : Text) (edits : List Edit) (actor path : Text) :
    contentsAfter (journalEntries host listing disk stateDir domain) edits actor path =
      (lastWriteWins (held host disk stateDir domain actor path) edits actor path).toList := by
  unfold contentsAfter lastWriteWins
  cases lastChange edits actor path with
  | none => exact contentsAt_eq ..
  | some change => rfl

/-- After calls that return, the journal lists for each actor and path what the
last call asked for, in order; a further call leaves everything else however it
ends, and its own entry as it was, as asked for, or absent. -/
theorem journal_is_last_write_wins (before after : Listing)
    (run : Journaled host stateDir domain disk edits middle)
    {ending : Ending IoError Unit}
    (next : Runs fileAnswers middle (perform host stateDir domain edit) ending last) :
    (∀ actor path, contentsAt (journalEntries host after middle stateDir domain) actor path =
      contentsAfter (journalEntries host before disk stateDir domain) edits actor path) ∧
    ((journalEntries host after middle stateDir domain).entries.Pairwise
      fun left right => left.key < right.key) ∧
    LeavesOthers host stateDir domain edit middle last ∧
    (contentsAt (journalEntries host after last stateDir domain) edit.actor edit.path =
        contentsAt (journalEntries host after middle stateDir domain) edit.actor edit.path ∨
      contentsAt (journalEntries host after last stateDir domain) edit.actor edit.path =
        edit.change.holds.toList ∨
      contentsAt (journalEntries host after last stateDir domain) edit.actor edit.path = []) ∧
    (∀ text, some text ∈ contentsAt (journalEntries host after last stateDir domain)
        edit.actor edit.path →
      some text ∈ contentsAt (journalEntries host before disk stateDir domain)
        edit.actor edit.path ∨
      ⟨edit.actor, edit.path, .write text⟩ ∈ edits ++ [edit]) := by
  obtain ⟨others, own, -⟩ := perform_run next
  have follows := run.held
  refine ⟨fun actor path => ?_, pairwise_entries host after middle stateDir domain, others, ?_,
    fun text among => ?_⟩
  · rw [contentsAt_eq, contentsAfter_eq, follows]
  · rw [contentsAt_eq, contentsAt_eq]
    rcases own with old | new | absent
    · exact .inl (congrArg Option.toList old)
    · exact .inr (.inl (congrArg Option.toList new))
    · exact .inr (.inr (congrArg Option.toList absent))
  · rw [contentsAt_eq, Option.mem_toList] at among
    rw [contentsAt_eq, Option.mem_toList]
    rcases own with old | new | absent
    · rw [old, follows] at among
      rcases written_of_lastWriteWins among with early | written
      · exact .inl early
      · exact .inr (List.mem_append_left _ written)
    · rw [new] at among
      right
      obtain ⟨actor, path, change⟩ := edit
      cases change with
      | write content =>
          obtain rfl : content = text := Option.some.inj (Option.some.inj among)
          exact List.mem_append_right _ List.mem_cons_self
      | tombstone => cases among
      | clear => cases among
    · rw [absent] at among
      cases among

namespace Interrupted

def machine : Host := ⟨7, id, id⟩

def draftPlace : Place := ["overlays".toList, "garden".toList, "ana".toList, "soil.md".toList]

def tempPlace : Place := ["overlays".toList, "garden".toList, "ana".toList, "soil.md.tmp.7".toList]

def empty : FileSystem := ⟨∅, by simp, by simp⟩

/-- One file and nothing else. -/
def alone (place : Place) (bytes : Bytes) (named : ∀ name ∈ place, IsEntryName name) :
    FileSystem :=
  ⟨AList.singleton place bytes,
    fun _ member => List.mem_singleton.mp (AList.mem_keys.mp member) ▸ named,
    fun _ member _ otherMember _ => (List.mem_singleton.mp (AList.mem_keys.mp member)).trans
      (List.mem_singleton.mp (AList.mem_keys.mp otherMember)).symm⟩

def written : Bytes := toUtf8 "loam".toList

def writing : FileSystem := alone tempPlace written (by unfold IsEntryName; decide)

def drafted : FileSystem := alone draftPlace written (by unfold IsEntryName; decide)

def draft : Edit := ⟨"ana".toList, "soil.md".toList, .write "loam".toList⟩

def deletion : Edit := ⟨"ana".toList, "soil.md".toList, .tombstone⟩

theorem entryPath_soil :
    entryPath machine [] "garden".toList "ana".toList "soil.md".toList = .ok draftPlace := by
  rfl

theorem tempSibling_soil : tempSibling machine draftPlace = tempPlace := by decide

theorem draft_returns : Runs fileAnswers empty (perform machine [] "garden".toList draft)
    (.returned ()) drafted := by
  have created : FileSystem.Answers empty (.createDirAll draftPlace.dropLast) (.ok ()) empty := rfl
  have saved : FileSystem.Answers empty (.write tempPlace written) (.ok ()) writing := rfl
  have renamed : FileSystem.Answers writing (.rename tempPlace draftPlace) (.ok ()) drafted :=
    ⟨written, rfl, rfl⟩
  have unmarked : FileSystem.Answers drafted (.symlinkMetadata (tombstoneOf draftPlace))
      (.error .notFound) drafted := rfl
  have missing : FileSystem.Answers drafted (.removeFile (tombstoneOf draftPlace))
      (.error .notFound) drafted := ⟨rfl, fun _ => by decide⟩
  have whole : perform machine [] "garden".toList draft =
      (save machine draftPlace written >>= fun _ =>
        removeEntryIfPresent machine (tombstoneOf draftPlace)) := by
    change Program.orStop (entryPath machine [] "garden".toList "ana".toList "soil.md".toList) >>= _ = _
    rw [entryPath_soil]
    rfl
  rw [whole, save, tempSibling_soil]
  exact .call created (.call saved (.call renamed (.call unmarked (.call missing .done))))

/-- The deletion is cut off when the draft is gone and the sidecar not yet
there. -/
theorem deletion_cut : Runs fileAnswers drafted (perform machine [] "garden".toList deletion)
    .cut empty := by
  have unseen : FileSystem.Answers drafted (.symlinkMetadata draftPlace) (.error .other) drafted :=
    rfl
  have removed : FileSystem.Answers drafted (.removeFile draftPlace) (.ok ()) empty :=
    ⟨by decide, rfl⟩
  have whole : perform machine [] "garden".toList deletion =
      (removeEntryIfPresent machine draftPlace >>= fun _ =>
        save machine (tombstoneOf draftPlace) []) := by
    change Program.orStop (entryPath machine [] "garden".toList "ana".toList "soil.md".toList) >>=
      _ = _
    rw [entryPath_soil]
    rfl
  rw [whole]
  exact .call unseen (.call removed .cut)

def asFound : Listing := ⟨fun _ names => names, fun _ names => List.Perm.refl names⟩

theorem journal_is_last_write_wins_cut :
    contentsAt (journalEntries machine asFound drafted [] "garden".toList) "ana".toList
        "soil.md".toList = [some "loam".toList] ∧
      LeavesOthers machine [] "garden".toList deletion drafted empty := by
  obtain ⟨follows, -, others, -⟩ := journal_is_last_write_wins asFound asFound
    (.cons draft_returns .nil) deletion_cut
  exact ⟨follows "ana".toList "soil.md".toList, others⟩

end Interrupted

end Crystalline.Overlay
