import Crystalline.Remote.Partition
import Crystalline.Remote.Revert

/-!
# When a revert puts back what stood below

A run of a revert is followed on the working tree itself: each recorded path
owns one spelling on disk, a turn of either loop touches the spelling of its own
path alone, and it does so only while the file is the one that was shared.  A
file the trunk has a copy of gets that copy, also where a layer below recorded
another content over it.
-/

namespace Crystalline.Remote

open Programs Text

/-- What the calls of a revert make of the working tree: a write that fails may
leave anything at its own path. -/
def workingTree : Answers Tree Call Call.Answer
  | tree, .writeFile path content, answer, last =>
      (answer = .ok () ∧ last = tree.insert path content) ∨
        ((∃ error, answer = .error error) ∧
          ∀ other, other ≠ path → last.lookup other = tree.lookup other)
  | tree, .removeFile path, answer, last =>
      (answer = .ok () ∧ last = tree.erase path) ∨
        ((∃ error, answer = .error error) ∧ last = tree)
  | tree, _, _, last => last = tree

section Writes

variable {Value : Type} {post : Ending RemoteError Value → Tree → Prop} {holds : Tree → Prop}
  {tree : Tree} {path : Path} {next : Unit → Operation Value}

/-- The rule for a write: what holds however the run ends must survive any
content at the path. -/
theorem ensures_writeFile {content : Bytes} (unfinished : Unfinished holds post) (now : holds tree)
    (kept : ∀ last, (∀ other, other ≠ path → last.lookup other = tree.lookup other) → holds last)
    (goes : Ensures workingTree post (next ()) (tree.insert path content)) :
    Ensures workingTree post (perform (.writeFile path content) >>= next) tree := by
  refine ensures_perform (unfinished tree now).1 ?_ ?_
  · intro error last answered
    rcases answered with ⟨impossible, -⟩ | ⟨-, elsewhere⟩
    · cases impossible
    · exact ⟨(unfinished last (kept last elsewhere)).1,
        (unfinished last (kept last elsewhere)).2 error⟩
  · intro result last answered
    rcases answered with ⟨-, rfl⟩ | ⟨⟨error, impossible⟩, -⟩
    · exact goes
    · cases impossible

theorem ensures_removeFile (unfinished : Unfinished holds post) (now : holds tree)
    (goes : Ensures workingTree post (next ()) (tree.erase path)) :
    Ensures workingTree post (perform (.removeFile path) >>= next) tree := by
  refine ensures_perform (unfinished tree now).1 ?_ ?_
  · intro error last answered
    rcases answered with ⟨impossible, -⟩ | ⟨-, rfl⟩
    · cases impossible
    · exact ⟨(unfinished last now).1, (unfinished last now).2 error⟩
  · intro result last answered
    rcases answered with ⟨-, rfl⟩ | ⟨⟨error, impossible⟩, -⟩
    · exact goes
    · cases impossible

theorem ensures_orStop {Result : Type} {result : Except RemoteError Result}
    {next : Result → Operation Value} (unfinished : Unfinished holds post) (now : holds tree)
    (goes : ∀ value, result = .ok value → Ensures workingTree post (next value) tree) :
    Ensures workingTree post (Program.orStop result >>= next) tree := by
  cases result with
  | ok value => exact goes value rfl
  | error error => exact ⟨(unfinished tree now).1, (unfinished tree now).2 error⟩

end Writes

section Reports

variable (report : WithdrawReport) (path : Path)

/-- One report names a path more than another, and skips what that skips. -/
structure WithdrawReport.Adds (more : WithdrawReport) : Prop where
  diverged : report.skippedDiverged ⊆ more.skippedDiverged
  reverts : report.skippedReverts ⊆ more.skippedReverts
  reflection : report.skippedReflection ⊆ more.skippedReflection
  named : more.named.Perm (report.named ++ [path])

namespace WithdrawReport

theorem adds_restored :
    report.Adds path { report with restored := report.restored ++ [path] } := by
  refine ⟨List.Subset.refl _, List.Subset.refl _, List.Subset.refl _, ?_⟩
  refine List.perm_iff_count.mpr fun name => ?_
  simp only [named, List.count_append]
  omega

theorem adds_skippedDiverged :
    report.Adds path { report with skippedDiverged := report.skippedDiverged ++ [path] } := by
  refine ⟨List.subset_append_left _ _, List.Subset.refl _, List.Subset.refl _, ?_⟩
  refine List.perm_iff_count.mpr fun name => ?_
  simp only [named, List.count_append]
  omega

theorem adds_skippedReverts :
    report.Adds path { report with skippedReverts := report.skippedReverts ++ [path] } := by
  refine ⟨List.Subset.refl _, List.subset_append_left _ _, List.Subset.refl _, ?_⟩
  refine List.perm_iff_count.mpr fun name => ?_
  simp only [named, List.count_append]
  omega

theorem adds_skippedReflection :
    report.Adds path { report with skippedReflection := report.skippedReflection ++ [path] } := by
  refine ⟨List.Subset.refl _, List.Subset.refl _, List.subset_append_left _ _, ?_⟩
  refine List.perm_iff_count.mpr fun name => ?_
  simp only [named, List.count_append]
  omega

end WithdrawReport

end Reports

namespace Revert

variable {revert : Revert} {tree : Tree} {local_ : LocalChanges}

section Detected

variable (succeeded : revert.comparing.detectLocalChangesWith tree revert.tip = .ok local_)
include succeeded

theorem diskPath_cases (path : Path) :
    (∃ bytes stamp, revert.comparing.Adopts tree revert.tip (local_.diskPath path) bytes path
        stamp) ∨
      local_.diskPath path = path ∧
        ∀ file bytes stamp, ¬revert.comparing.Adopts tree revert.tip file bytes path stamp := by
  by_cases adopted : ∃ file bytes stamp,
      revert.comparing.Adopts tree revert.tip file bytes path stamp
  · obtain ⟨file, bytes, stamp, adopts⟩ := adopted
    refine .inl ⟨bytes, stamp, ?_⟩
    rw [Detector.diskPath_of_adopts succeeded adopts]
    exact adopts
  · have unadopted : ∀ file bytes stamp,
        ¬revert.comparing.Adopts tree revert.tip file bytes path stamp :=
      fun file bytes stamp adopts => adopted ⟨file, bytes, stamp, adopts⟩
    exact .inr ⟨Detector.diskPath_of_unadopted succeeded unadopted, unadopted⟩

variable {path : Path} {sha256 : Sha}

theorem unlisted_of_added (reported : .added path sha256 ∈ local_.changes) :
    revert.tip.lookup path = none := by
  have reports := (Detector.mem_changes succeeded).mp reported
  cases reports with
  | added onDisk _ unlisted _ =>
      refine Option.eq_none_iff_forall_ne_some.mpr fun stamp listed => ?_
      exact unlisted stamp ⟨listed, onDisk.2⟩

theorem listed_of_modified (reported : .modified path sha256 ∈ local_.changes) :
    ∃ stamp, revert.tip.lookup path = some stamp := by
  have reports := (Detector.mem_changes succeeded).mp reported
  cases reports with
  | modified _ _ listed _ => exact ⟨_, listed.1⟩
  | recased adopts _ _ => exact ⟨_, adopts.listed.1⟩

theorem gone_of_reported (reported : .deleted path ∈ local_.changes) :
    (∃ stamp, revert.tip.lookup path = some stamp) ∧
      tree.lookup (local_.diskPath path) = none := by
  have reports := (Detector.mem_changes succeeded).mp reported
  cases reports with
  | @deleted _ stamp listed absent unadopted _ =>
      refine ⟨⟨stamp, listed.1⟩, ?_⟩
      rcases diskPath_cases succeeded path with ⟨bytes, other, adopts⟩ | ⟨own, -⟩
      · obtain rfl := adopts.listed.unique listed
        exact absurd adopts (unadopted _ _)
      · rw [own]
        refine Option.eq_none_iff_forall_ne_some.mpr fun bytes there => ?_
        exact absent bytes ⟨there, listed.2⟩

theorem diverged_eq_false {change : LocalChange} (reported : change ∈ local_.changes)
    (sha256 : Option Sha) :
    change.diverged revert.detector.sha256Hex sha256
        (tree.lookup (local_.diskPath change.path)) = false ↔
      (tree.lookup (local_.diskPath change.path)).map revert.detector.sha256Hex = sha256 := by
  cases change with
  | added path digest => exact decide_eq_false_iff_not.trans not_not
  | modified path digest => exact decide_eq_false_iff_not.trans not_not
  | deleted path =>
      rw [LocalChange.path_deleted, (gone_of_reported succeeded reported).2]
      cases sha256 <;> simp [LocalChange.diverged]

end Detected

variable (revert tree) in
/-- A recorded path that reads back as itself, and is not the spelling on disk
of another path of the tip. -/
structure Named (path : Path) : Prop where
  plain : normalizeSelectedPath path = path
  own : ∀ bytes key stamp, ¬revert.comparing.Adopts tree revert.tip path bytes key stamp

section Named

variable (succeeded : revert.comparing.detectLocalChangesWith tree revert.tip = .ok local_)
  {path : Path} (named : revert.Named tree path)
include succeeded named

theorem Named.of_diskPath {key : Path} (spelled : local_.diskPath key = path) : key = path := by
  rcases diskPath_cases succeeded key with ⟨bytes, stamp, adopts⟩ | ⟨own, -⟩
  · rw [spelled] at adopts
    exact absurd adopts (named.own _ _ _)
  · exact own.symm.trans spelled

theorem Named.diskPath_inj {other : Path} (otherNamed : revert.Named tree other)
    (same : local_.diskPath path = local_.diskPath other) : path = other := by
  rcases diskPath_cases succeeded path with ⟨bytes, stamp, adopts⟩ | ⟨own, -⟩
  · rcases diskPath_cases succeeded other with ⟨content, held, adopted⟩ | ⟨otherOwn, -⟩
    · rw [same] at adopts
      exact adopted.single _ _ adopts.listed
        (adopts.unmatched.folds.symm.trans adopted.unmatched.folds)
    · exact otherNamed.of_diskPath succeeded (same.trans otherOwn)
  · exact (named.of_diskPath succeeded (same.symm.trans own)).symm

variable {change : LocalChange}

theorem Named.of_resolved (resolved : resolveLocalChange local_ path = some change) :
    change ∈ local_.changes ∧ change.path = path := by
  unfold resolveLocalChange at resolved
  rw [named.plain] at resolved
  dsimp only at resolved
  split at resolved
  · cases resolved
  · have selects := List.find?_some resolved
    rw [Bool.or_eq_true, decide_eq_true_iff, decide_eq_true_iff] at selects
    refine ⟨List.mem_of_mem_filter (List.mem_of_find?_eq_some resolved), ?_⟩
    rcases selects with same | spelled
    · exact same
    · exact named.of_diskPath succeeded spelled

omit succeeded in
theorem Named.of_unresolved (unresolved : resolveLocalChange local_ path = none)
    (noListing : isIndexPath path = false) (reported : change ∈ local_.changes) :
    change.path ≠ path := by
  rintro rfl
  unfold resolveLocalChange at unresolved
  rw [named.plain] at unresolved
  dsimp only at unresolved
  rw [noListing, if_neg Bool.false_ne_true] at unresolved
  have substantive : change ∈ local_.changes.filter fun change => !change.isGeneratedIndex := by
    rw [List.mem_filter, LocalChange.isGeneratedIndex, noListing]
    exact ⟨reported, rfl⟩
  have unlike := List.find?_eq_none.mp unresolved change substantive
  simp at unlike

end Named

variable (revert tree local_) in
/-- A recorded file is still the one that was shared. -/
def Same (file : ProposedFile) : Prop :=
  (tree.lookup (local_.diskPath file.path)).map revert.detector.sha256Hex = file.sha256

variable (revert) in
/-- What the tip says of a path: no file, or a file with a digest. -/
def AsTip (path : Path) (content : Option Bytes) : Prop :=
  content.map revert.detector.sha256Hex = (revert.tip.lookup path).map BaseStamp.sha256

variable (revert) in
/-- The layers below recorded nothing else over a file of the trunk. -/
def Stood (path : Path) : Prop :=
  revert.trunk.lookup path = none ∨ revert.tip.lookup path = none ∨
    (revert.tip.lookup path).map BaseStamp.sha256 =
      (revert.trunk.lookup path).map BaseStamp.sha256

variable (revert tree) in
/-- Another spelling of a path that the tip records stands on disk. -/
def Twin (path : Path) : Prop :=
  ∃ other stamp bytes, revert.comparing.Listed revert.tip other stamp ∧
    revert.detector.foldCase other = revert.detector.foldCase path ∧ other ≠ path ∧
      revert.comparing.OnDisk tree other bytes

variable (revert tree local_) in
/-- A recorded file that the detection reports and a discard selects. -/
structure Picks (file : ProposedFile) : Prop where
  takesPart : revert.detector.policy.takesPart file.path = true
  noListing : isIndexPath file.path = false
  small : ∀ bytes, tree.lookup (local_.diskPath file.path) = some bytes → Detector.Small bytes
  differs : ((tree.lookup (local_.diskPath file.path)).map fun bytes =>
      (bytes.length, revert.detector.sha256Hex bytes)) ≠
    (revert.tip.lookup file.path).map fun stamp => (stamp.size, stamp.sha256)
  noTwin : tree.lookup (local_.diskPath file.path) = none → ¬revert.Twin tree file.path

variable (revert tree local_) in
/-- When a recorded file that is still as shared is put back: no layer below
recorded another content over the trunk's, or nothing is done to the file and it
is as the tip has it. -/
structure Restorable (file : ProposedFile) : Prop where
  stood : revert.Picks tree local_ file → revert.Stood file.path
  settled : ¬revert.Picks tree local_ file →
    file.sha256 = (revert.tip.lookup file.path).map BaseStamp.sha256

theorem unchanged_eq_true {path : Path} {stamp : BaseStamp} {bytes : Bytes} :
    revert.comparing.unchanged path stamp bytes = true ↔
      (bytes.length, revert.detector.sha256Hex bytes) = (stamp.size, stamp.sha256) := by
  rw [Prod.mk.injEq, eq_comm (b := stamp.size), eq_comm (b := stamp.sha256)]
  simp [Detector.unchanged, Detector.sameTextAsBase, sameAsBase, comparing]
  exact fun _ => decide_eq_true_iff

variable {file : ProposedFile}

section Picked

variable (succeeded : revert.comparing.detectLocalChangesWith tree revert.tip = .ok local_)
  (named : revert.Named tree file.path)
include succeeded named

/-- One case for each change the detection may report. -/
theorem picks_of_resolved (resolved : (resolveLocalChange local_ file.path).isSome = true) :
    revert.Picks tree local_ file := by
  obtain ⟨change, isChange⟩ := Option.isSome_iff_exists.mp resolved
  obtain ⟨reported, isPath⟩ := named.of_resolved succeeded isChange
  have noListing : isIndexPath file.path = false := by
    apply Bool.eq_false_iff.mpr
    intro listing
    unfold resolveLocalChange at isChange
    rw [named.plain] at isChange
    dsimp only at isChange
    rw [listing, if_pos rfl] at isChange
    cases isChange
  have reports := (Detector.mem_changes succeeded).mp reported
  have takesPart : revert.detector.policy.takesPart file.path = true := by
    rw [← isPath]
    exact reports.takesPart
  -- what is reported of a file on disk
  have present {bytes : Bytes} (there : tree.lookup (local_.diskPath file.path) = some bytes)
      (small : Detector.Small bytes)
      (other : ∀ stamp, revert.tip.lookup file.path = some stamp →
        revert.comparing.unchanged file.path stamp bytes = false) :
      revert.Picks tree local_ file := by
    refine ⟨takesPart, noListing, ?_, ?_, ?_⟩
    · intro content isContent
      obtain rfl := Option.some.inj (there.symm.trans isContent)
      exact small
    · intro same
      rw [there, Option.map_some] at same
      obtain ⟨stamp, listed, alike⟩ := Option.map_eq_some_iff.mp same.symm
      have changed := other stamp listed
      rw [unchanged_eq_true.mpr alike.symm] at changed
      cases changed
    · intro gone
      rw [there] at gone
      cases gone
  cases reports with
  | @modified path bytes stamp onDisk small listed changed =>
      obtain rfl : path = file.path := isPath
      have own : local_.diskPath file.path = file.path := by
        rcases diskPath_cases succeeded file.path with ⟨content, held, adopts⟩ | ⟨own, -⟩
        · exact absurd onDisk (adopts.absent bytes)
        · exact own
      refine present (by rw [own]; exact onDisk.1) small fun other isOther => ?_
      obtain rfl := Option.some.inj (listed.1.symm.trans isOther)
      exact changed
  | @recased path bytes key stamp adopts small changed =>
      obtain rfl : key = file.path := isPath
      have spelled := Detector.diskPath_of_adopts succeeded adopts
      refine present (by rw [spelled]; exact adopts.unmatched.onDisk.1) small
        fun other isOther => ?_
      obtain rfl := Option.some.inj (adopts.listed.1.symm.trans isOther)
      exact changed
  | @added path bytes onDisk small unlisted _ =>
      obtain rfl : path = file.path := isPath
      have own : local_.diskPath file.path = file.path := by
        rcases diskPath_cases succeeded file.path with ⟨content, held, adopts⟩ | ⟨own, -⟩
        · exact absurd adopts.listed (unlisted held)
        · exact own
      refine present (by rw [own]; exact onDisk.1) small fun stamp listed => ?_
      exact absurd ⟨listed, onDisk.2⟩ (unlisted stamp)
  | @deleted path stamp listed _ _ noTwin =>
      obtain rfl : path = file.path := isPath
      have gone := (gone_of_reported succeeded reported).2
      refine ⟨takesPart, noListing, ?_, ?_, ?_⟩
      · intro bytes there
        rw [gone] at there
        cases there
      · rw [gone, listed.1]
        exact fun same => by cases same
      · rintro - ⟨other, otherStamp, bytes, otherListed, alike, -, onDisk⟩
        exact noTwin other otherStamp otherListed alike bytes onDisk

/-- A file that is to be picked is reported. -/
theorem resolved_of_picks (picks : revert.Picks tree local_ file) :
    (resolveLocalChange local_ file.path).isSome = true := by
  cases resolved : resolveLocalChange local_ file.path with
  | some change => rfl
  | none =>
      have quiet : ∀ change, revert.comparing.Reports tree revert.tip change →
          change.path ≠ file.path := fun change reports =>
        named.of_unresolved resolved picks.noListing ((Detector.mem_changes succeeded).mpr reports)
      have unlike {stamp : BaseStamp} {bytes : Bytes}
          (there : tree.lookup (local_.diskPath file.path) = some bytes)
          (listed : revert.tip.lookup file.path = some stamp) :
          revert.comparing.unchanged file.path stamp bytes = false := by
        apply Bool.eq_false_iff.mpr
        intro same
        apply picks.differs
        rw [there, listed, Option.map_some, Option.map_some, unchanged_eq_true.mp same]
      rcases diskPath_cases succeeded file.path with ⟨bytes, stamp, adopts⟩ | ⟨own, unadopted⟩
      · have there := adopts.unmatched.onDisk.1
        exact absurd rfl (quiet _ (.recased adopts (picks.small bytes there)
          (unlike there adopts.listed.1)))
      · cases there : tree.lookup file.path with
        | some bytes =>
            have onDisk : revert.comparing.OnDisk tree file.path bytes := ⟨there, picks.takesPart⟩
            rw [← own] at there
            have small := picks.small bytes there
            cases listed : revert.tip.lookup file.path with
            | none =>
                refine absurd rfl (quiet _ (.added onDisk small ?_ fun key stamp =>
                  named.own bytes key stamp))
                exact fun stamp held => Option.some_ne_none stamp (held.1.symm.trans listed)
            | some stamp =>
                exact absurd rfl (quiet _ (.modified onDisk small ⟨listed, picks.takesPart⟩
                  (unlike there listed)))
        | none =>
            have gone : tree.lookup (local_.diskPath file.path) = none := by rw [own, there]
            cases listed : revert.tip.lookup file.path with
            | none =>
                refine absurd ?_ picks.differs
                rw [gone, listed]
                rfl
            | some stamp =>
                refine absurd rfl (quiet _ (.deleted ⟨listed, picks.takesPart⟩
                  ?_ (fun other bytes => unadopted other bytes stamp) ?_))
                · exact fun bytes onDisk => Option.some_ne_none bytes (onDisk.1.symm.trans there)
                · intro other otherStamp otherListed alike bytes onDisk
                  by_cases isFile : other = file.path
                  · subst isFile
                    exact Option.some_ne_none bytes (onDisk.1.symm.trans there)
                  · exact picks.noTwin gone
                      ⟨other, otherStamp, bytes, otherListed, alike, isFile, onDisk⟩

end Picked

variable (revert tree local_) in
/-- Only recorded files that were still as shared have changed. -/
def Safe (last : Tree) : Prop :=
  ∀ path, last.lookup path ≠ tree.lookup path →
    ∃ file ∈ revert.proposal.files, local_.diskPath file.path = path ∧
      revert.Same tree local_ file

variable (revert tree local_) in
/-- Why a recorded file was refused. -/
def Refused (file : ProposedFile) : DiscardRefusal → Prop
  | .changedSince =>
      (resolveLocalChange local_ file.path).isSome = true ∧ ¬revert.Same tree local_ file
  | .noBaseCopy =>
      (resolveLocalChange local_ file.path).isSome = true ∧ revert.Same tree local_ file ∧
        revert.copies.lookup file.path = none
  | .notAChange | .unknownPath => resolveLocalChange local_ file.path = none

variable (revert tree local_) in
/-- What the discard made of a recorded file, by what stands at its spelling. -/
inductive Discarded (report : DiscardReport) (file : ProposedFile) : Option Bytes → Prop where
  | deleted (selected : (resolveLocalChange local_ file.path).isSome = true)
      (same : revert.Same tree local_ file) (unlisted : revert.tip.lookup file.path = none)
      (member : file.path ∈ report.deleted) : Discarded report file none
  | restored {bytes : Bytes} (selected : (resolveLocalChange local_ file.path).isSome = true)
      (same : revert.Same tree local_ file) (listed : ∃ stamp, revert.tip.lookup file.path = some stamp)
      (copied : revert.copies.lookup file.path = some bytes)
      (member : file.path ∈ report.restored) : Discarded report file (some bytes)
  | refused {why : DiscardRefusal} (refused : revert.Refused tree local_ file why)
      (member : (file.path, why) ∈ report.refused) :
      Discarded report file (tree.lookup (local_.diskPath file.path))

/-- One report says at least what another says. -/
structure DiscardReport.Within (report next : DiscardReport) : Prop where
  restored : report.restored ⊆ next.restored
  deleted : report.deleted ⊆ next.deleted
  refused : report.refused ⊆ next.refused

theorem Discarded.mono {report next : DiscardReport} {content : Option Bytes}
    (within : DiscardReport.Within report next)
    (discarded : revert.Discarded tree local_ report file content) :
    revert.Discarded tree local_ next file content := by
  cases discarded with
  | deleted selected same unlisted member =>
      exact .deleted selected same unlisted (within.deleted member)
  | restored selected same listed copied member =>
      exact .restored selected same listed copied (within.restored member)
  | refused refused member => exact .refused refused (within.refused member)

variable (revert tree local_) in
/-- The state of the discard after some of the recorded files. -/
structure Discards (worked : List ProposedFile) (state : Tree × DiscardReport)
    (world : Tree) : Prop where
  isTree : world = state.1
  safe : revert.Safe tree local_ world
  outside : ∀ path, (∀ file ∈ worked, local_.diskPath file.path ≠ path) →
    world.lookup path = tree.lookup path
  counted : (state.2.restored ++ state.2.deleted ++ state.2.refused.map Prod.fst).Perm
    (worked.map ProposedFile.path)
  discarded : ∀ file ∈ worked, revert.Discarded tree local_ state.2 file
    (world.lookup (local_.diskPath file.path))
  refused : ∀ item ∈ state.2.refused, ∃ file ∈ worked, file.path = item.1 ∧
    revert.Refused tree local_ file item.2 ∧
      world.lookup (local_.diskPath item.1) = tree.lookup (local_.diskPath item.1)

section Turns

variable {worked : List ProposedFile} {file : ProposedFile} {report : DiscardReport}
  {before : Tree} (discards : revert.Discards tree local_ worked (before, report) before)
  (distinct : ∀ other ∈ worked, local_.diskPath other.path ≠ local_.diskPath file.path)
include discards distinct

variable {after : Tree}

/-- A turn for one more recorded file, which touches its own spelling alone. -/
theorem Discards.next {next : DiscardReport} (elsewhere : ∀ path, path ≠ local_.diskPath file.path →
      after.lookup path = before.lookup path) (safe : revert.Safe tree local_ after)
    (within : DiscardReport.Within report next)
    (counted : (next.restored ++ next.deleted ++ next.refused.map Prod.fst).Perm
      (report.restored ++ report.deleted ++ report.refused.map Prod.fst ++ [file.path]))
    (discarded : revert.Discarded tree local_ next file
      (after.lookup (local_.diskPath file.path)))
    (refused : ∀ item ∈ next.refused, item ∈ report.refused ∨ item.1 = file.path ∧
      revert.Refused tree local_ file item.2 ∧
        after.lookup (local_.diskPath file.path) = tree.lookup (local_.diskPath file.path)) :
    revert.Discards tree local_ (worked ++ [file]) (after, next) after where
  isTree := rfl
  safe := safe
  outside path untouched := by
    have own := untouched file (List.mem_append_right worked List.mem_cons_self)
    rw [elsewhere path own.symm]
    exact discards.outside path fun other member =>
      untouched other (List.mem_append_left _ member)
  counted := by
    rw [List.map_append]
    exact counted.trans (discards.counted.append_right _)
  discarded other member := by
    rcases List.mem_append.mp member with earlier | isFile
    · rw [elsewhere _ (distinct other earlier)]
      exact (discards.discarded other earlier).mono within
    · obtain rfl := List.mem_singleton.mp isFile
      exact discarded
  refused item member := by
    rcases refused item member with earlier | ⟨isFile, why, kept⟩
    · obtain ⟨other, otherMember, isOther, why, kept⟩ := discards.refused item earlier
      refine ⟨other, List.mem_append_left _ otherMember, isOther, why, ?_⟩
      rw [← isOther, elsewhere _ (distinct other otherMember), isOther]
      exact kept
    · refine ⟨file, List.mem_append_right worked List.mem_cons_self, isFile.symm, why, ?_⟩
      rw [isFile]
      exact kept

theorem Discards.untouched :
    before.lookup (local_.diskPath file.path) = tree.lookup (local_.diskPath file.path) :=
  discards.outside _ distinct

theorem Discards.refuse {why : DiscardRefusal} (refused : revert.Refused tree local_ file why) :
    revert.Discards tree local_ (worked ++ [file]) (before, report.refuse file.path why)
      before := by
  have untouched := discards.untouched distinct
  refine discards.next distinct (fun _ _ => rfl) discards.safe
    ⟨List.Subset.refl _, List.Subset.refl _, List.subset_append_left _ _⟩ ?_ ?_ ?_
  · simp [DiscardReport.refuse]
  · rw [untouched]
    exact .refused refused (List.mem_append_right _ List.mem_cons_self)
  · intro item member
    rcases List.mem_append.mp member with earlier | isNew
    · exact .inl earlier
    · obtain rfl := List.mem_singleton.mp isNew
      exact .inr ⟨rfl, refused, untouched⟩

variable (recorded : file ∈ revert.proposal.files) (same : revert.Same tree local_ file)
include recorded same

omit distinct in
theorem Discards.touch (elsewhere : ∀ path, path ≠ local_.diskPath file.path →
    after.lookup path = before.lookup path) : revert.Safe tree local_ after := by
  intro path changed
  by_cases own : path = local_.diskPath file.path
  · exact ⟨file, recorded, own.symm, same⟩
  · rw [elsewhere path own] at changed
    exact discards.safe path changed

theorem Discards.delete (selected : (resolveLocalChange local_ file.path).isSome = true)
    (unlisted : revert.tip.lookup file.path = none) :
    revert.Discards tree local_ (worked ++ [file])
      (before.erase (local_.diskPath file.path), report.delete file.path)
      (before.erase (local_.diskPath file.path)) := by
  have elsewhere : ∀ path, path ≠ local_.diskPath file.path →
      (before.erase (local_.diskPath file.path)).lookup path = before.lookup path :=
    fun path other => AList.lookup_erase_ne other
  refine discards.next distinct elsewhere
    (discards.touch recorded same elsewhere)
    ⟨List.Subset.refl _, List.subset_append_left _ _, List.Subset.refl _⟩ ?_ ?_
    fun item member => .inl member
  · refine List.perm_iff_count.mpr fun path => ?_
    simp only [DiscardReport.delete, List.count_append]
    omega
  · rw [AList.lookup_erase]
    exact .deleted selected same unlisted (List.mem_append_right _ List.mem_cons_self)

theorem Discards.restore {bytes : Bytes}
    (selected : (resolveLocalChange local_ file.path).isSome = true)
    (listed : ∃ stamp, revert.tip.lookup file.path = some stamp)
    (copied : revert.copies.lookup file.path = some bytes) :
    revert.Discards tree local_ (worked ++ [file])
      (before.insert (local_.diskPath file.path) bytes, report.restore file.path)
      (before.insert (local_.diskPath file.path) bytes) := by
  have elsewhere : ∀ path, path ≠ local_.diskPath file.path →
      (before.insert (local_.diskPath file.path) bytes).lookup path = before.lookup path :=
    fun path other => AList.lookup_insert_ne other
  refine discards.next distinct elsewhere
    (discards.touch recorded same elsewhere)
    ⟨List.subset_append_left _ _, List.Subset.refl _, List.Subset.refl _⟩ ?_ ?_
    fun item member => .inl member
  · refine List.perm_iff_count.mpr fun path => ?_
    simp only [DiscardReport.restore, List.count_append]
    omega
  · rw [AList.lookup_insert]
    exact .restored selected same listed copied (List.mem_append_right _ List.mem_cons_self)

omit distinct in
theorem ensures_putBack
    (succeeded : revert.comparing.detectLocalChangesWith tree revert.tip = .ok local_)
    (distinct : ∀ other ∈ worked, local_.diskPath other.path ≠ local_.diskPath file.path)
    {change : LocalChange} (resolved : resolveLocalChange local_ file.path = some change)
    (reported : change ∈ local_.changes) (isPath : change.path = file.path) :
    Ensures workingTree (Finishes (revert.Safe tree local_)
        (revert.Discards tree local_ (worked ++ [file])))
      ((revert.discard local_).putBack before report change) before := by
  have selected := Option.isSome_of_eq_some resolved
  have copied : ∀ bytes, readBaseFile revert.copies file.path = .ok bytes →
      revert.copies.lookup file.path = bytes := by
    intro bytes read
    unfold readBaseFile at read
    split at read
    · exact Except.ok.inj read
    · cases read
  -- a modification and a deletion are put back alike
  have putsBack : (∃ stamp, revert.tip.lookup file.path = some stamp) →
      Ensures workingTree (Finishes (revert.Safe tree local_)
          (revert.Discards tree local_ (worked ++ [file])))
        ((revert.discard local_).putBack before report (.deleted file.path)) before := by
    intro listed
    refine ensures_orStop (unfinished_finishes _ _) discards.safe fun held read => ?_
    cases held with
    | none =>
        exact ⟨discards.safe, discards.refuse distinct ⟨selected, same, copied none read⟩⟩
    | some bytes =>
        have restored := discards.restore distinct recorded same selected listed
          (copied (some bytes) read)
        refine ensures_writeFile (unfinished_finishes _ _) discards.safe ?_
          ⟨restored.safe, restored⟩
        exact fun last elsewhere => discards.touch recorded same elsewhere
  cases change with
  | added path sha256 =>
      obtain rfl : path = file.path := isPath
      have deleted := discards.delete distinct recorded same selected
        (unlisted_of_added succeeded reported)
      exact ensures_removeFile (unfinished_finishes _ _) discards.safe ⟨deleted.safe, deleted⟩
  | modified path sha256 =>
      obtain rfl : path = file.path := isPath
      exact putsBack (listed_of_modified succeeded reported)
  | deleted path =>
      obtain rfl : path = file.path := isPath
      exact putsBack (gone_of_reported succeeded reported).1

omit distinct same in
/-- One turn of the discard. -/
theorem ensures_discardTarget
    (succeeded : revert.comparing.detectLocalChangesWith tree revert.tip = .ok local_)
    (distinct : ∀ other ∈ worked, local_.diskPath other.path ≠ local_.diskPath file.path)
    (named : revert.Named tree file.path) :
    Ensures workingTree (Finishes (revert.Safe tree local_)
        (revert.Discards tree local_ (worked ++ [file])))
      ((revert.discard local_).discardTarget (before, report) ⟨file.path, file.sha256⟩)
      before := by
  unfold Discard.discardTarget discard
  cases resolved : resolveLocalChange local_ file.path with
  | none =>
      refine ⟨discards.safe, discards.refuse distinct ?_⟩
      unfold Discard.unresolved
      dsimp only
      split
      · exact resolved
      · exact resolved
  | some change =>
      obtain ⟨reported, isPath⟩ := named.of_resolved succeeded resolved
      have untouched := discards.untouched distinct
      refine ensures_orStop (unfinished_finishes _ _) discards.safe fun current read => ?_
      have held := lookup_of_readOptionalFile read
      dsimp only at held
      rw [isPath, untouched] at held
      have guards := diverged_eq_false succeeded reported file.sha256
      rw [isPath, held] at guards
      cases diverged : change.diverged revert.detector.sha256Hex file.sha256 current with
      | true =>
          rw [if_pos rfl, isPath]
          refine ⟨discards.safe, discards.refuse distinct
            ⟨Option.isSome_of_eq_some resolved, fun same => ?_⟩⟩
          rw [Same, held] at same
          rw [guards.mpr same] at diverged
          cases diverged
      | false =>
          rw [if_neg Bool.false_ne_true]
          have same : revert.Same tree local_ file := by
            rw [Same, held]
            exact guards.mp diverged
          exact ensures_putBack discards recorded same succeeded distinct resolved reported isPath

end Turns

section Loops

variable (succeeded : revert.comparing.detectLocalChangesWith tree revert.tip = .ok local_)
  (distinct : (revert.proposal.files.map ProposedFile.path).Nodup)
  (named : ∀ file ∈ revert.proposal.files, revert.Named tree file.path)
include succeeded distinct named

/-- The discard, over all recorded files. -/
theorem ensures_discardLocalFiles :
    Ensures workingTree (Finishes (revert.Safe tree local_)
        (revert.Discards tree local_ revert.proposal.files))
      ((revert.discard local_).discardLocalFiles tree revert.targets) tree := by
  unfold Discard.discardLocalFiles targets
  rw [Program.forEach_map]
  refine finishes_forEach (revert.Discards tree local_) ?_ (fun _ _ discards => discards.safe) ?_
  · rintro worked file rest ⟨before, report⟩ world split discards
    obtain rfl : world = before := discards.isTree
    have recorded : file ∈ revert.proposal.files := by
      rw [split]
      exact List.mem_append_right worked List.mem_cons_self
    refine ensures_discardTarget discards recorded succeeded ?_ (named file recorded)
    intro other member same
    rw [split, List.map_append, List.map_cons] at distinct
    have otherRecorded : other ∈ revert.proposal.files := by
      rw [split]
      exact List.mem_append_left _ member
    have samePath := (named other otherRecorded).diskPath_inj succeeded (named file recorded) same
    refine List.disjoint_of_nodup_append distinct (List.mem_map_of_mem member) ?_
    rw [samePath]
    exact List.mem_cons_self
  · refine ⟨rfl, fun path changed => absurd rfl changed, fun _ _ => rfl, .refl _, ?_, ?_⟩
    · intro file member
      cases member
    · intro item member
      cases member

end Loops

/-- A content the nearest layer below still serves is the one the tip names. -/
theorem ensures_contentOfNearest (sha256Hex : Bytes → Sha) (trunk : Snapshot) (path : Path)
    (world : Tree) {layers : List Proposal}
    (distinct : ∀ layer ∈ layers, (layer.files.map ProposedFile.path).Nodup) :
    Ensures workingTree (Finishes (· = world) fun content last => last = world ∧
        ∀ bytes, content = some bytes → ∃ stamp,
          (tipFilesOver trunk layers.reverse).lookup path = some stamp ∧
            stamp.sha256 = sha256Hex bytes)
      (contentOfNearest sha256Hex path layers) world := by
  have nothing : Ensures workingTree (Finishes (· = world) fun content last => last = world ∧
      ∀ bytes, content = some bytes → ∃ stamp,
        (tipFilesOver trunk layers.reverse).lookup path = some stamp ∧
          stamp.sha256 = sha256Hex bytes)
        (pure none : Operation (Option Bytes)) world := by
    refine ⟨rfl, rfl, fun bytes impossible => ?_⟩
    cases impossible
  induction layers with
  | nil => exact nothing
  | cons layer layers ih =>
      have isTop : tipFilesOver trunk (layer :: layers).reverse =
          layer.files.foldl (overlay trunk) (tipFilesOver trunk layers.reverse) := by
        rw [List.reverse_cons, tipFilesOver, List.foldl_append]
        rfl
      unfold contentOfNearest
      cases found : layer.files.find? fun file => file.path = path with
      | none =>
          have unnamed : ∀ file ∈ layer.files, path ≠ file.path := by
            rintro file member rfl
            have unlike := List.find?_eq_none.mp found file member
            exact unlike (decide_eq_true rfl)
          rw [isTop, lookup_overlays_of_unnamed _ unnamed] at nothing ⊢
          exact ih (fun other member => distinct other (.tail _ member)) nothing
      | some file =>
          have isPath : file.path = path := by simpa using List.find?_some found
          subst isPath
          have member := List.mem_of_find?_eq_some found
          dsimp only
          split
          · exact nothing
          · next blobSha recorded isBlob isRecorded notDeleted =>
              refine ⟨rfl, fun answer last answered => ?_⟩
              obtain rfl : last = world := answered
              cases answer with
              | error error => exact nothing
              | ok bytes =>
                  change Ensures workingTree _
                    (pure (if sha256Hex bytes = recorded then some bytes else none) :
                      Operation (Option Bytes)) last
                  split
                  · next hashes =>
                    refine ⟨rfl, rfl, fun content isContent => ?_⟩
                    obtain rfl := Option.some.inj isContent
                    obtain ⟨earlier, isLayer⟩ := lookup_overlays_of_mem
                      (distinct layer (.head _)) (tipFilesOver trunk layers.reverse) member
                    obtain ⟨size, isStamp⟩ := lookup_overlay_recorded trunk earlier
                      notDeleted isRecorded
                    rw [isTop, isLayer]
                    exact ⟨_, isStamp, hashes.symm⟩
                  · exact nothing
          · exact nothing

variable (revert tree local_) in
/-- What became of a refused path. -/
def Settled (item : Path × DiscardRefusal) (report : WithdrawReport)
    (content : Option Bytes) : Prop :=
  match item.2 with
  | .changedSince => content = tree.lookup (local_.diskPath item.1)
  | .noBaseCopy => revert.AsTip item.1 content ∨
      item.1 ∈ report.skippedReverts ∧ content = tree.lookup (local_.diskPath item.1)
  | .notAChange | .unknownPath => content = tree.lookup (local_.diskPath item.1) ∧
      item.1 ∈ report.skippedDiverged ++ report.skippedReflection

variable (revert tree local_) in
/-- The state of a revert after some of the refused paths. -/
structure Reverts (middle : Tree) (start : WithdrawReport)
    (worked : List (Path × DiscardRefusal)) (state : Tree × WithdrawReport)
    (world : Tree) : Prop where
  isTree : world = state.1
  safe : revert.Safe tree local_ world
  outside : ∀ path, (∀ item ∈ worked, local_.diskPath item.1 ≠ path) →
    world.lookup path = middle.lookup path
  counted : state.2.named.Perm (start.named ++ worked.map Prod.fst)
  skipped : ∀ path ∈ state.2.skippedReverts, (path, .noBaseCopy) ∈ worked
  settled : ∀ item ∈ worked, revert.Settled tree local_ item state.2
    (world.lookup (local_.diskPath item.1))

section Refusals

variable {middle before : Tree} {start report more : WithdrawReport}
  {worked : List (Path × DiscardRefusal)} {item : Path × DiscardRefusal}

theorem Settled.mono {path : Path} {content : Option Bytes} (adds : report.Adds path more)
    (settled : revert.Settled tree local_ item report content) :
    revert.Settled tree local_ item more content := by
  have skips (member : item.1 ∈ report.skippedDiverged ++ report.skippedReflection) :
      item.1 ∈ more.skippedDiverged ++ more.skippedReflection := by
    rcases List.mem_append.mp member with here | here
    · exact List.mem_append_left _ (adds.diverged here)
    · exact List.mem_append_right _ (adds.reflection here)
  unfold Settled at settled ⊢
  split at settled
  · exact settled
  · exact settled.imp_right (And.imp_left fun member => adds.reverts member)
  · exact settled.imp_right skips
  · exact settled.imp_right skips

variable (reverts : revert.Reverts tree local_ middle start worked (before, report) before)
  (distinct : ∀ other ∈ worked, local_.diskPath other.1 ≠ local_.diskPath item.1)
include reverts distinct

/-- A turn for one more refused path. -/
theorem Reverts.next {after : Tree}
    (elsewhere : ∀ path, path ≠ local_.diskPath item.1 → after.lookup path = before.lookup path)
    (safe : revert.Safe tree local_ after) (adds : report.Adds item.1 more)
    (only : ∀ path ∈ more.skippedReverts,
      path ∈ report.skippedReverts ∨ item = (path, .noBaseCopy))
    (settled : revert.Settled tree local_ item more
      (after.lookup (local_.diskPath item.1))) :
    revert.Reverts tree local_ middle start (worked ++ [item]) (after, more) after where
  isTree := rfl
  safe := safe
  outside path untouched := by
    have own := untouched item (List.mem_append_right worked List.mem_cons_self)
    rw [elsewhere path own.symm]
    exact reverts.outside path fun other member =>
      untouched other (List.mem_append_left _ member)
  counted := by
    rw [List.map_append, ← List.append_assoc]
    exact adds.named.trans (reverts.counted.append_right _)
  skipped path member := by
    rcases only path member with earlier | rfl
    · exact List.mem_append_left _ (reverts.skipped path earlier)
    · exact List.mem_append_right worked List.mem_cons_self
  settled other member := by
    rcases List.mem_append.mp member with earlier | isItem
    · rw [elsewhere _ (distinct other earlier)]
      exact (reverts.settled other earlier).mono adds
    · obtain rfl := List.mem_singleton.mp isItem
      exact settled

/-- A turn that writes nothing. -/
theorem Reverts.keeps (adds : report.Adds item.1 more)
    (only : ∀ path ∈ more.skippedReverts,
      path ∈ report.skippedReverts ∨ item = (path, .noBaseCopy))
    (settled : revert.Settled tree local_ item more (before.lookup (local_.diskPath item.1))) :
    Ensures workingTree (Finishes (revert.Safe tree local_)
        (revert.Reverts tree local_ middle start (worked ++ [item])))
      (pure (before, more) : Operation (Tree × WithdrawReport)) before :=
  ⟨reverts.safe, reverts.next distinct (fun _ _ => rfl) reverts.safe adds only settled⟩

/-- A turn that writes a recorded file back as the tip has it. -/
theorem Reverts.writes {bytes : Bytes} {stamp : BaseStamp} {file : ProposedFile}
    (recorded : file ∈ revert.proposal.files) (isPath : file.path = item.1)
    (same : revert.Same tree local_ file) (noCopy : item.2 = .noBaseCopy)
    (listed : revert.tip.lookup item.1 = some stamp)
    (hashes : stamp.sha256 = revert.detector.sha256Hex bytes) :
    Ensures workingTree (Finishes (revert.Safe tree local_)
        (revert.Reverts tree local_ middle start (worked ++ [item])))
      (perform (.writeFile (local_.diskPath item.1) bytes) >>= fun _ =>
        pure (before.insert (local_.diskPath item.1) bytes,
          { report with restored := report.restored ++ [item.1] }) :
        Operation (Tree × WithdrawReport)) before := by
  have mayTouch : ∀ after : Tree, (∀ other, other ≠ local_.diskPath item.1 →
      after.lookup other = before.lookup other) → revert.Safe tree local_ after := by
    intro after elsewhere other changed
    by_cases own : other = local_.diskPath item.1
    · exact ⟨file, recorded, by rw [isPath, own], same⟩
    · rw [elsewhere other own] at changed
      exact reverts.safe other changed
  have elsewhere : ∀ other, other ≠ local_.diskPath item.1 →
      (before.insert (local_.diskPath item.1) bytes).lookup other = before.lookup other :=
    fun other unlike => AList.lookup_insert_ne unlike
  have settled : revert.Settled tree local_ item
      { report with restored := report.restored ++ [item.1] }
      ((before.insert (local_.diskPath item.1) bytes).lookup (local_.diskPath item.1)) := by
    rw [Settled, noCopy]
    refine .inl ?_
    rw [AList.lookup_insert, AsTip, listed, Option.map_some, Option.map_some, hashes]
  exact ensures_writeFile (unfinished_finishes _ _) reverts.safe mayTouch
    ⟨mayTouch _ elsewhere, reverts.next distinct elsewhere (mayTouch _ elsewhere)
      (report.adds_restored item.1) (fun _ => .inl) settled⟩

variable (held : before.lookup (local_.diskPath item.1) = tree.lookup (local_.diskPath item.1))
include held

/-- A path that is no change of the working tree is named, and its file stands. -/
theorem ensures_skipped (unknown : item.2 = .notAChange ∨ item.2 = .unknownPath) :
    Ensures workingTree (Finishes (revert.Safe tree local_)
        (revert.Reverts tree local_ middle start (worked ++ [item])))
      (if revert.detector.policy.reflection = .effective && isUnderReflections item.1 then
        pure (before, { report with skippedReflection := report.skippedReflection ++ [item.1] })
      else pure (before, { report with skippedDiverged := report.skippedDiverged ++ [item.1] }) :
        Operation (Tree × WithdrawReport)) before := by
  have settled {more : WithdrawReport}
      (member : item.1 ∈ more.skippedDiverged ++ more.skippedReflection) :
      revert.Settled tree local_ item more (before.lookup (local_.diskPath item.1)) := by
    rcases unknown with why | why
    · rw [Settled, why]
      exact ⟨held, member⟩
    · rw [Settled, why]
      exact ⟨held, member⟩
  split
  · refine reverts.keeps distinct (report.adds_skippedReflection item.1) (fun _ => .inl) ?_
    exact settled (List.mem_append_right _ (List.mem_append_right _ List.mem_cons_self))
  · refine reverts.keeps distinct (report.adds_skippedDiverged item.1) (fun _ => .inl) ?_
    exact settled (List.mem_append_left _ (List.mem_append_right _ List.mem_cons_self))

/-- A path without a base copy is written as the nearest layer below has it, or is
named as skipped. -/
theorem ensures_layerBelow
    (lower : ∀ layer ∈ revert.below, (layer.files.map ProposedFile.path).Nodup)
    {file : ProposedFile} (recorded : file ∈ revert.proposal.files) (isPath : file.path = item.1)
    (same : revert.Same tree local_ file) (noCopy : item.2 = .noBaseCopy)
    {next : Option Bytes → Operation (Tree × WithdrawReport)}
    (writes : ∀ bytes, next (some bytes) =
      perform (.writeFile (local_.diskPath item.1) bytes) >>= fun _ =>
        pure (before.insert (local_.diskPath item.1) bytes,
          { report with restored := report.restored ++ [item.1] }))
    (skips : next none =
      pure (before, { report with skippedReverts := report.skippedReverts ++ [item.1] })) :
    Ensures workingTree (Finishes (revert.Safe tree local_)
        (revert.Reverts tree local_ middle start (worked ++ [item])))
      (layerBelowContent revert.detector.sha256Hex revert.below item.1 >>= next) before := by
  have fetched := ensures_contentOfNearest revert.detector.sha256Hex revert.trunk item.1 before
    fun layer member => lower layer (List.mem_reverse.mp member)
  rw [List.reverse_reverse] at fetched
  refine fetched.bind ?_ ?_ ?_
  · rintro content last ⟨rfl, isTip⟩
    cases content with
    | none =>
        rw [skips]
        refine reverts.keeps distinct (report.adds_skippedReverts item.1) ?_ ?_
        · intro path member
          refine (List.mem_append.mp member).imp_right fun isNew => ?_
          rw [List.mem_singleton.mp isNew, ← noCopy]
        · rw [Settled, noCopy]
          exact .inr ⟨List.mem_append_right _ List.mem_cons_self, held⟩
    | some bytes =>
        obtain ⟨stamp, listed, hashes⟩ := isTip bytes rfl
        rw [writes]
        exact reverts.writes distinct recorded isPath same noCopy listed hashes
  · rintro error last rfl
    exact reverts.safe
  · rintro last rfl
    exact reverts.safe

omit held in
/-- One refused path, whose file stands as it stood before the revert. -/
theorem ensures_revertRefused
    (untouched : middle.lookup (local_.diskPath item.1) = tree.lookup (local_.diskPath item.1))
    (lower : ∀ layer ∈ revert.below, (layer.files.map ProposedFile.path).Nodup)
    (touches : item.2 = .noBaseCopy → ∃ file ∈ revert.proposal.files, file.path = item.1 ∧
      revert.Same tree local_ file) :
    Ensures workingTree (Finishes (revert.Safe tree local_)
        (revert.Reverts tree local_ middle start (worked ++ [item])))
      (revert.revertRefused local_ (before, report) item) before := by
  have held : before.lookup (local_.diskPath item.1) = tree.lookup (local_.diskPath item.1) :=
    (reverts.outside _ distinct).trans untouched
  obtain ⟨path, why⟩ := item
  unfold revertRefused
  dsimp only
  cases why with
  | changedSince =>
      exact reverts.keeps distinct (report.adds_skippedDiverged path) (fun _ => .inl) held
  | noBaseCopy =>
      obtain ⟨file, recorded, isPath, same⟩ := touches rfl
      refine ensures_orStop (unfinished_finishes _ _) reverts.safe fun disk isDisk => ?_
      obtain rfl : local_.diskPath path = disk := by
        unfold checkedWorkingPath at isDisk
        split at isDisk
        · exact Except.ok.inj isDisk
        · cases isDisk
      exact ensures_layerBelow reverts distinct held lower recorded isPath same rfl
        (fun _ => rfl) rfl
  | notAChange => exact ensures_skipped reverts distinct held (.inl rfl)
  | unknownPath => exact ensures_skipped reverts distinct held (.inr rfl)

end Refusals

variable (revert tree local_) in
/-- A recorded file ends as the tip below has it, or is named as skipped and stands
as it stood. -/
def Restored (last : Tree) (report : WithdrawReport) (file : ProposedFile) : Prop :=
  revert.AsTip file.path (last.lookup (local_.diskPath file.path)) ∨
    file.path ∈ report.skippedReverts ∧
      last.lookup (local_.diskPath file.path) = tree.lookup (local_.diskPath file.path)

variable (revert tree local_) in
/-- What a revert that answers has made of the recorded files. -/
structure PutsBack (last : Tree) (report : WithdrawReport) : Prop where
  counted : report.named.Perm (revert.proposal.files.map ProposedFile.path)
  back : ∀ file ∈ revert.proposal.files, revert.Same tree local_ file →
    (revert.Restored tree local_ last report file ↔ revert.Restorable tree local_ file)
  apart : ∀ file ∈ revert.proposal.files,
    revert.detector.policy.takesPart file.path = false ∨ isIndexPath file.path = true →
      last.lookup (local_.diskPath file.path) = tree.lookup (local_.diskPath file.path) ∧
        file.path ∈ report.skippedDiverged ++ report.skippedReflection

section Whole

variable (succeeded : revert.comparing.detectLocalChangesWith tree revert.tip = .ok local_)
  (named : ∀ file ∈ revert.proposal.files, revert.Named tree file.path)
include succeeded named

theorem unresolved_of_apart {file : ProposedFile} (recorded : file ∈ revert.proposal.files)
    (apart : revert.detector.policy.takesPart file.path = false ∨
      isIndexPath file.path = true) :
    resolveLocalChange local_ file.path = none := by
  cases resolved : resolveLocalChange local_ file.path with
  | none => rfl
  | some change =>
      have picks := picks_of_resolved succeeded (named file recorded)
        (Option.isSome_of_eq_some resolved)
      rcases apart with left | listing
      · exact absurd (picks.takesPart.symm.trans left) Bool.false_ne_true.symm
      · exact absurd (picks.noListing.symm.trans listing) Bool.false_ne_true

section Report

variable {middle last : Tree} {discarded : DiscardReport} {report : WithdrawReport}
  (distinct : (revert.proposal.files.map ProposedFile.path).Nodup)
  (discards : revert.Discards tree local_ revert.proposal.files (middle, discarded) middle)
  (reverts : revert.Reverts tree local_ middle
    ⟨discarded.restored, discarded.deleted, [], [], []⟩ discarded.refused (last, report) last)
  {file : ProposedFile} (recorded : file ∈ revert.proposal.files)
include distinct discards reverts

omit succeeded named reverts in
theorem Discards.not_refused {path : Path}
    (done : path ∈ discarded.restored ++ discarded.deleted) :
    path ∉ discarded.refused.map Prod.fst := fun refused =>
  (List.nodup_append.mp (discards.counted.nodup_iff.mpr distinct)).2.2 path done path refused rfl

include recorded

/-- A file the discard put back is no refused path, and stands. -/
theorem Reverts.stays (done : file.path ∈ discarded.restored ++ discarded.deleted) :
    last.lookup (local_.diskPath file.path) = middle.lookup (local_.diskPath file.path) := by
  refine reverts.outside _ fun item member spelled => ?_
  obtain ⟨other, otherRecorded, isOther, -⟩ := discards.refused item member
  have same : other.path = file.path :=
    (named other otherRecorded).diskPath_inj succeeded (named file recorded)
      (by rw [isOther]; exact spelled)
  refine discards.not_refused distinct done ?_
  rw [← same, isOther]
  exact List.mem_map_of_mem member

variable (same : revert.Same tree local_ file)
include same

/-- A file that is not picked stands, and no report names it as skipped. -/
theorem Reverts.restored_of_unselected {why : DiscardRefusal}
    (unselected : resolveLocalChange local_ file.path = none)
    (member : (file.path, why) ∈ discarded.refused) (other : why ≠ .noBaseCopy)
    (untouched : last.lookup (local_.diskPath file.path) =
      tree.lookup (local_.diskPath file.path)) :
    revert.Restored tree local_ last report file ↔ revert.Restorable tree local_ file := by
  have unpicked : ¬revert.Picks tree local_ file := fun picks => by
    have resolved := resolved_of_picks succeeded (named file recorded) picks
    rw [unselected] at resolved
    cases resolved
  have refusedOnce := (List.nodup_append.mp (discards.counted.nodup_iff.mpr distinct)).2.1
  have unskipped : file.path ∉ report.skippedReverts := fun skipped =>
    other (congrArg Prod.snd (List.inj_on_of_nodup_map refusedOnce member
      (reverts.skipped _ skipped) rfl))
  rw [Restored, untouched, AsTip, same]
  constructor
  · rintro (asTip | ⟨skipped, -⟩)
    · exact ⟨fun picks => absurd picks unpicked, fun _ => asTip⟩
    · exact absurd skipped unskipped
  · exact fun restorable => .inl (restorable.settled unpicked)

variable (copied : ∀ path, (revert.copies.lookup path).map revert.detector.sha256Hex =
  (revert.trunk.lookup path).map BaseStamp.sha256)
include copied

omit same in
/-- A file that gets the trunk's copy is back when the tip has nothing else. -/
theorem Reverts.restored_of_copied {bytes : Bytes} (picked : revert.Picks tree local_ file)
    (listed : ∃ stamp, revert.tip.lookup file.path = some stamp)
    (isCopy : revert.copies.lookup file.path = some bytes)
    (member : file.path ∈ discarded.restored)
    (held : middle.lookup (local_.diskPath file.path) = some bytes) :
    revert.Restored tree local_ last report file ↔ revert.Restorable tree local_ file := by
  have done := List.mem_append_left discarded.deleted member
  have unskipped : file.path ∉ report.skippedReverts := fun skipped =>
    discards.not_refused distinct done (List.mem_map_of_mem (reverts.skipped _ skipped))
  have ofTrunk := copied file.path
  rw [isCopy, Option.map_some] at ofTrunk
  rw [Restored, reverts.stays succeeded named distinct discards recorded done, held, AsTip,
    Option.map_some, ofTrunk]
  constructor
  · rintro (asTip | ⟨skipped, -⟩)
    · exact ⟨fun _ => .inr (.inr asTip.symm), fun unpicked => absurd picked unpicked⟩
    · exact absurd skipped unskipped
  · intro restorable
    rcases restorable.stood picked with absent | unlisted | asTrunk
    · rw [absent] at ofTrunk
      cases ofTrunk
    · obtain ⟨stamp, isStamp⟩ := listed
      rw [unlisted] at isStamp
      cases isStamp
    · exact .inl asTrunk.symm

/-- One case for each thing a discard makes of a recorded file. -/
theorem Reverts.restored_iff :
    revert.Restored tree local_ last report file ↔ revert.Restorable tree local_ file := by
  have isDone := discards.discarded file recorded
  have picked := picks_of_resolved succeeded (named file recorded)
  generalize held : middle.lookup (local_.diskPath file.path) = content at isDone
  cases isDone with
  | deleted selected _ unlisted member =>
      have ends : revert.AsTip file.path (last.lookup (local_.diskPath file.path)) := by
        rw [reverts.stays succeeded named distinct discards recorded
          (List.mem_append_right _ member), held, AsTip, unlisted]
        rfl
      exact iff_of_true (.inl ends)
        ⟨fun _ => .inr (.inl unlisted), fun unpicked => absurd (picked selected) unpicked⟩
  | restored selected _ listed isCopy member =>
      exact reverts.restored_of_copied succeeded named distinct discards recorded copied
        (picked selected) listed isCopy member held
  | @refused why refused member =>
      have settled := reverts.settled _ member
      cases why with
      | changedSince => exact absurd same refused.2
      | noBaseCopy =>
          have ofTrunk := copied file.path
          rw [refused.2.2, Option.map_none] at ofTrunk
          exact iff_of_true settled
            ⟨fun _ => .inl (Option.map_eq_none_iff.mp ofTrunk.symm),
              fun unpicked => absurd (picked refused.1) unpicked⟩
      | notAChange =>
          exact reverts.restored_of_unselected succeeded named distinct discards recorded same
            refused member (by decide) settled.1
      | unknownPath =>
          exact reverts.restored_of_unselected succeeded named distinct discards recorded same
            refused member (by decide) settled.1

omit distinct same copied in
/-- A file that takes no part is named, and stands. -/
theorem Reverts.apart (left : revert.detector.policy.takesPart file.path = false ∨
      isIndexPath file.path = true) :
    last.lookup (local_.diskPath file.path) = tree.lookup (local_.diskPath file.path) ∧
      file.path ∈ report.skippedDiverged ++ report.skippedReflection := by
  have unresolved := unresolved_of_apart succeeded named recorded left
  have isDone := discards.discarded file recorded
  generalize middle.lookup (local_.diskPath file.path) = content at isDone
  cases isDone with
  | deleted selected => rw [unresolved] at selected; cases selected
  | restored selected => rw [unresolved] at selected; cases selected
  | @refused why refused member =>
      have settled := reverts.settled _ member
      cases why with
      | changedSince =>
          rw [Refused, unresolved] at refused
          cases refused.1
      | noBaseCopy =>
          rw [Refused, unresolved] at refused
          cases refused.1
      | notAChange => exact settled
      | unknownPath => exact settled

omit recorded same in
/-- The two loops together. -/
theorem Reverts.putsBack : revert.PutsBack tree local_ last report where
  counted := by
    refine reverts.counted.trans ?_
    simpa [WithdrawReport.named] using discards.counted
  back file recorded same :=
    reverts.restored_iff succeeded named distinct discards recorded same copied
  apart file recorded left := reverts.apart succeeded named discards recorded left

end Report

/-- The whole revert, the discard first and then each path it refused. -/
theorem ensures_revertLayerFiles
    (distinct : (revert.proposal.files.map ProposedFile.path).Nodup)
    (lower : ∀ layer ∈ revert.below, (layer.files.map ProposedFile.path).Nodup)
    (copied : ∀ path, (revert.copies.lookup path).map revert.detector.sha256Hex =
      (revert.trunk.lookup path).map BaseStamp.sha256) :
    Ensures workingTree (Finishes (revert.Safe tree local_)
        fun value last => revert.Safe tree local_ last ∧ value.1 = last ∧
          revert.PutsBack tree local_ last value.2)
      (revert.revertLayerFiles tree .empty) tree := by
  unfold revertLayerFiles
  rw [succeeded]
  refine (ensures_discardLocalFiles succeeded distinct named).andThen ?_
  rintro ⟨middle, discarded⟩ world discards
  obtain rfl : world = middle := discards.isTree
  have once := (List.nodup_append.mp (discards.counted.nodup_iff.mpr distinct)).2.1
  refine (finishes_forEach (revert.Reverts tree local_ world
    ⟨discarded.restored, discarded.deleted, [], [], []⟩) ?_
      (fun _ _ reverts => reverts.safe) ?_).mono ?_
  · rintro worked item rest ⟨before, report⟩ last split reverts
    obtain rfl : last = before := reverts.isTree
    have isRefused : item ∈ discarded.refused := by
      rw [split]
      exact List.mem_append_right worked List.mem_cons_self
    obtain ⟨file, recorded, isPath, refused, untouched⟩ := discards.refused item isRefused
    refine ensures_revertRefused reverts ?_ untouched lower ?_
    · intro other member same
      rw [split, List.map_append, List.map_cons] at once
      have otherRefused : other ∈ discarded.refused := by
        rw [split]
        exact List.mem_append_left _ member
      obtain ⟨source, sourceRecorded, isSource, -⟩ := discards.refused other otherRefused
      rw [← isPath, ← isSource] at same
      have samePath := (named source sourceRecorded).diskPath_inj succeeded
        (named file recorded) same
      refine List.disjoint_of_nodup_append once (List.mem_map_of_mem member) ?_
      rw [← isSource, samePath, isPath]
      exact List.mem_cons_self
    · intro noCopy
      rw [noCopy] at refused
      exact ⟨file, recorded, isPath, refused.2.1⟩
  · exact ⟨rfl, discards.safe, fun _ _ => rfl, .of_eq (List.append_nil _).symm,
      fun _ member => absurd member List.not_mem_nil, fun _ member => by cases member⟩
  · intro ending last finishes
    cases ending with
    | returned value =>
        obtain ⟨after, report⟩ := value
        have reverts := finishes
        obtain rfl : last = after := reverts.isTree
        exact ⟨reverts.safe, rfl, reverts.putsBack succeeded named distinct discards copied⟩
    | failed error => exact finishes
    | cut => exact finishes

end Whole

/-- However a run of a revert ends, only recorded files that were still as shared
have changed; a run that answers has put one of them back as the tip below has it
exactly when it can be: no layer below recorded another content over the trunk's. -/
theorem revert_puts_back_iff (revert : Revert) (tree : Tree)
    (distinct : (revert.proposal.files.map ProposedFile.path).Nodup)
    (lower : ∀ layer ∈ revert.below, (layer.files.map ProposedFile.path).Nodup)
    (copied : ∀ path, (revert.copies.lookup path).map revert.detector.sha256Hex =
      (revert.trunk.lookup path).map BaseStamp.sha256)
    (named : ∀ file ∈ revert.proposal.files, revert.Named tree file.path)
    {ending : Ending RemoteError (Tree × WithdrawReport)} {last : Tree}
    (run : Runs workingTree tree (revert.revertLayerFiles tree .empty) ending last) :
    (∀ error, revert.comparing.detectLocalChangesWith tree revert.tip = .error error →
      last = tree ∧ ∀ answer, ending ≠ .returned answer) ∧
    ∀ local_, revert.comparing.detectLocalChangesWith tree revert.tip = .ok local_ →
      (∀ path, last.lookup path ≠ tree.lookup path →
        ∃ file ∈ revert.proposal.files, local_.diskPath file.path = path ∧
          revert.Same tree local_ file) ∧
      (∀ file ∈ revert.proposal.files, ¬revert.Same tree local_ file →
        last.lookup (local_.diskPath file.path) = tree.lookup (local_.diskPath file.path)) ∧
      ∀ final report, ending = .returned (final, report) →
        final = last ∧ revert.PutsBack tree local_ last report := by
  constructor
  · intro error failed
    unfold revertLayerFiles at run
    rw [failed] at run
    cases run with
    | stop => exact ⟨rfl, fun answer impossible => by cases impossible⟩
    | cut => exact ⟨rfl, fun answer impossible => by cases impossible⟩
  · intro local_ succeeded
    have ensured := ensures_revertLayerFiles succeeded named distinct lower copied
    have finishes := ensured.of_run run
    have safe : revert.Safe tree local_ last := by
      cases ending with
      | returned value => exact finishes.1
      | failed error => exact finishes
      | cut => exact finishes
    refine ⟨safe, ?_, ?_⟩
    · intro file recorded diverged
      by_contra changed
      obtain ⟨other, otherRecorded, spelled, same⟩ := safe _ changed
      have samePath := (named other otherRecorded).diskPath_inj succeeded (named file recorded)
        spelled
      obtain rfl := List.inj_on_of_nodup_map distinct otherRecorded recorded samePath
      exact diverged same
    · rintro final report rfl
      exact ⟨finishes.2.1, finishes.2.2⟩

section Samples

/-- A file of one letter as a layer recorded it, with its blob. -/
def letter (path content : String) (change : ProposedChange) : ProposedFile :=
  ⟨path.toList, change, some content, some (content ++ "-blob"), some 1⟩

/-- The layer below revised `a.md` and added `b.md`; the withdrawn one revised both
and retired `c.md`. -/
def stackedRevert : Revert where
  detector := Detector.localIndexes
  trunk := [Detector.entry "a.md" "x", Detector.entry "c.md" "q"].toAList
  copies := [Detector.file "a.md" "x", Detector.file "c.md" "q"].toAList
  proposal := ⟨2, "", "share-2", "Share", .withdrawn,
    [letter "a.md" "z" .modified, letter "b.md" "w" .modified,
      ⟨"c.md".toList, .deleted, none, none, none⟩], none, none, none, none⟩
  below := [⟨1, "", "share-1", "Share", .opened,
    [letter "a.md" "y" .modified, letter "b.md" "v" .added], none, none, none, none⟩]

def sharedTree : Tree := [Detector.file "a.md" "z", Detector.file "b.md" "w"].toAList

def sharedChanges : LocalChanges :=
  ⟨[.modified "a.md".toList "z", .modified "b.md".toList "w", .deleted "c.md".toList], [], []⟩

def revertedTree : Tree :=
  ((sharedTree.insert "a.md".toList (toUtf8 "x".toList)).insert "c.md".toList
    (toUtf8 "q".toList)).insert "b.md".toList (toUtf8 "v".toList)

def stackedReport : WithdrawReport :=
  ⟨["a.md".toList, "c.md".toList, "b.md".toList], [], [], [], []⟩

theorem detects_sharedChanges : stackedRevert.comparing.detectLocalChangesWith sharedTree
    stackedRevert.tip = .ok sharedChanges := by decide +kernel

theorem runs_stackedRevert : Runs workingTree sharedTree
    (stackedRevert.revertLayerFiles sharedTree .empty)
    (.returned (revertedTree, stackedReport)) revertedTree := by
  unfold revertLayerFiles
  rw [detects_sharedChanges]
  have writes {tree : Tree} (path : Path) (content : Bytes) : workingTree tree
      (.writeFile path content) (.ok ()) (tree.insert path content) := .inl ⟨rfl, rfl⟩
  have blob {tree : Tree} : workingTree tree (.blob "v-blob") (.ok (toUtf8 "v".toList)) tree := rfl
  exact .call (writes _ _) (.call (writes _ _) (.call blob (.call (writes _ _) .done)))

theorem copied_stackedRevert (path : Path) :
    (stackedRevert.copies.lookup path).map stackedRevert.detector.sha256Hex =
      (stackedRevert.trunk.lookup path).map BaseStamp.sha256 := by
  by_cases first : path = "a.md".toList
  · subst first
    decide +kernel
  by_cases second : path = "c.md".toList
  · subst second
    decide +kernel
  have elsewhere : path ∉ ["a.md".toList, "c.md".toList] := by
    rw [List.mem_cons, List.mem_singleton]
    exact not_or.mpr ⟨first, second⟩
  have noCopy : stackedRevert.copies.lookup path = none :=
    AList.lookup_eq_none.mpr elsewhere
  have noEntry : stackedRevert.trunk.lookup path = none :=
    AList.lookup_eq_none.mpr elsewhere
  rw [noCopy, noEntry]
  rfl

theorem named_stackedRevert :
    ∀ file ∈ stackedRevert.proposal.files, stackedRevert.Named sharedTree file.path := by
  -- every recorded path is one of the tip's
  have ofTip {path : Path} (plain : normalizeSelectedPath path = path)
      (listed : (stackedRevert.tip.lookup path).isSome = true)
      (takesPart : stackedRevert.comparing.policy.takesPart path = true) :
      stackedRevert.Named sharedTree path := by
    refine ⟨plain, fun bytes key stamp adopts => ?_⟩
    obtain ⟨held, isHeld⟩ := Option.isSome_iff_exists.mp listed
    exact adopts.unmatched.unlisted held ⟨isHeld, takesPart⟩
  intro file member
  simp only [stackedRevert, List.mem_cons, List.not_mem_nil, or_false] at member
  rcases member with rfl | rfl | rfl
  · exact ofTip (by decide +kernel) (by decide +kernel) (by decide +kernel)
  · exact ofTip (by decide +kernel) (by decide +kernel) (by decide +kernel)
  · exact ofTip (by decide +kernel) (by decide +kernel) (by decide +kernel)

/-- The addition of the layer below and the retired file of the trunk come back, the
revision of the layer below does not. -/
theorem revert_puts_back_iff_stacked :
    ¬stackedRevert.Restored sharedTree sharedChanges revertedTree stackedReport
        (letter "a.md" "z" .modified) ∧
      stackedRevert.Restored sharedTree sharedChanges revertedTree stackedReport
        (letter "b.md" "w" .modified) ∧
      stackedRevert.Restored sharedTree sharedChanges revertedTree stackedReport
        ⟨"c.md".toList, .deleted, none, none, none⟩ := by
  have putsBack := (((revert_puts_back_iff stackedRevert sharedTree (by decide +kernel)
    (by decide +kernel) copied_stackedRevert named_stackedRevert runs_stackedRevert).2
      sharedChanges detects_sharedChanges).2.2 _ _ rfl).2
  have picked {file : ProposedFile} (recorded : file ∈ stackedRevert.proposal.files)
      (resolved : (resolveLocalChange sharedChanges file.path).isSome = true) :=
    picks_of_resolved detects_sharedChanges (named_stackedRevert file recorded) resolved
  have back {file : ProposedFile} (recorded : file ∈ stackedRevert.proposal.files)
      (resolved : (resolveLocalChange sharedChanges file.path).isSome = true)
      (same : stackedRevert.Same sharedTree sharedChanges file)
      (stood : stackedRevert.Stood file.path) :
      stackedRevert.Restored sharedTree sharedChanges revertedTree stackedReport file :=
    (putsBack.back file recorded same).mpr
      ⟨fun _ => stood, fun unpicked => absurd (picked recorded resolved) unpicked⟩
  have recorded : letter "a.md" "z" .modified ∈ stackedRevert.proposal.files := .head _
  refine ⟨fun restored => ?_, back (.tail _ (.head _)) (by decide +kernel) ?_ (.inl ?_),
    back (.tail _ (.tail _ (.head _))) (by decide +kernel) ?_ (.inr (.inr ?_))⟩
  · have same : stackedRevert.Same sharedTree sharedChanges (letter "a.md" "z" .modified) := by
      unfold Same
      decide +kernel
    have stood := ((putsBack.back _ recorded same).mp restored).stood
      (picked recorded (by decide +kernel))
    revert stood
    unfold Stood
    decide +kernel
  · unfold Same
    decide +kernel
  · decide +kernel
  · unfold Same
    decide +kernel
  · decide +kernel

/-- The trunk has `x`, the layer below shared `y`, the withdrawn one `z`: the revert
writes `x` and reports the path as restored. -/
theorem revert_loses_revision :
    stackedRevert.comparing.detectLocalChangesWith sharedTree stackedRevert.tip =
        .ok sharedChanges ∧
      stackedRevert.Same sharedTree sharedChanges (letter "a.md" "z" .modified) ∧
      Runs workingTree sharedTree (stackedRevert.revertLayerFiles sharedTree .empty)
        (.returned (revertedTree, stackedReport)) revertedTree ∧
      (stackedRevert.tip.lookup "a.md".toList).map BaseStamp.sha256 = some "y" ∧
      (revertedTree.lookup (sharedChanges.diskPath "a.md".toList)).map
        stackedRevert.detector.sha256Hex = some "x" ∧
      "a.md".toList ∈ stackedReport.restored ∧ "a.md".toList ∉ stackedReport.skippedReverts := by
  refine ⟨detects_sharedChanges, ?_, runs_stackedRevert, ?_, ?_, ?_, ?_⟩
  · unfold Same
    decide +kernel
  · decide +kernel
  · decide +kernel
  · decide +kernel
  · decide +kernel

end Samples

end Revert

end Crystalline.Remote
