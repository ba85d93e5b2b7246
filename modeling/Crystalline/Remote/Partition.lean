import Crystalline.Remote.DetectionSound

/-!
# What a share leaves behind

A share carries some of the changes detected against a tip and records them; the
next detection runs against the tip with those records laid over it.  On a disk
whose paths do not fold alike it reports the changes that were not carried and
nothing else.
-/

namespace Crystalline.Remote

open Text

namespace Detector

variable {detector : Detector} {tree : Tree} {base next : Snapshot} {result : LocalChanges}
  {carried : List LocalChange}

variable (detector) in
/-- The stamp of a content. -/
def stampOfContent (bytes : Bytes) : BaseStamp := ⟨detector.sha256Hex bytes, bytes.length⟩

variable (detector tree) in
/-- No two files that take part fold alike. -/
def DistinctOnDisk : Prop :=
  ∀ first second bytes content, detector.OnDisk tree first bytes →
    detector.OnDisk tree second content →
      detector.foldCase first = detector.foldCase second → first = second

variable (detector tree base next result) in
/-- Where a carried change lands in the tip over it. -/
inductive Lands : LocalChange → Prop where
  | modified {path bytes stamp} (onDisk : detector.OnDisk tree path bytes)
      (listed : detector.Listed base path stamp)
      (stamped : next.lookup path = some (detector.stampOfContent bytes)) :
      Lands (.modified path (detector.sha256Hex bytes))
  | recased {path bytes key stamp} (adopts : detector.Adopts tree base path bytes key stamp)
      (stamped : next.lookup key = some (detector.stampOfContent bytes)) :
      Lands (.modified key (detector.sha256Hex bytes))
  | added {path bytes} (onDisk : detector.OnDisk tree path bytes)
      (unlisted : ∀ stamp, ¬detector.Listed base path stamp)
      (fresh : ∀ key stamp, ¬detector.Adopts tree base path bytes key stamp)
      (stamped : next.lookup path = some (detector.stampOfContent bytes)) :
      Lands (.added path (detector.sha256Hex bytes))
  | deleted {path} (reported : .deleted path ∈ result.changes)
      (erased : next.lookup path = none) : Lands (.deleted path)

variable (detector tree base next result carried) in
/-- The tip with the carried changes in it. -/
structure Carries : Prop where
  detected : ∀ change ∈ carried, change ∈ result.changes
  lands : ∀ change ∈ carried, detector.Lands tree base next result change
  keeps : ∀ path, (∀ change ∈ carried, change.path ≠ path) →
    next.lookup path = base.lookup path

variable (succeeded : detector.detectLocalChangesWith tree base = .ok result)
  (distinct : detector.DistinctOnDisk tree)
  (carries : detector.Carries tree base next result carried)
include succeeded distinct carries

omit succeeded distinct carries in
variable (detector tree base next result carried) in
/-- What became of a path: where a carried change landed, or as it was. -/
inductive Fate (path : Path) : Prop where
  | modified {bytes stamp} (onDisk : detector.OnDisk tree path bytes)
      (listed : detector.Listed base path stamp)
      (stamped : next.lookup path = some (detector.stampOfContent bytes))
  | recased {file bytes stamp} (adopts : detector.Adopts tree base file bytes path stamp)
      (stamped : next.lookup path = some (detector.stampOfContent bytes))
  | added {bytes} (onDisk : detector.OnDisk tree path bytes)
      (unlisted : ∀ stamp, ¬detector.Listed base path stamp)
      (fresh : ∀ key stamp, ¬detector.Adopts tree base path bytes key stamp)
      (stamped : next.lookup path = some (detector.stampOfContent bytes))
  | deleted (reported : .deleted path ∈ result.changes) (erased : next.lookup path = none)
  | kept (unnamed : ∀ change ∈ carried, change.path ≠ path)
      (same : next.lookup path = base.lookup path)

omit succeeded distinct in
theorem Carries.fate (path : Path) : detector.Fate tree base next result carried path := by
  by_cases named : ∃ change ∈ carried, change.path = path
  · obtain ⟨change, member, rfl⟩ := named
    cases carries.lands change member with
    | modified onDisk listed stamped => exact .modified onDisk listed stamped
    | recased adopts stamped => exact .recased adopts stamped
    | added onDisk unlisted fresh stamped => exact .added onDisk unlisted fresh stamped
    | deleted reported erased => exact .deleted reported erased
  · have unnamed : ∀ change ∈ carried, change.path ≠ path :=
      fun change member same => named ⟨change, member, same⟩
    exact .kept unnamed (carries.keeps path unnamed)

omit distinct in
theorem Carries.listed_of_onDisk {path : Path} {bytes : Bytes} {stamp : BaseStamp}
    (onDisk : detector.OnDisk tree path bytes) (listed : detector.Listed base path stamp) :
    ∃ later, detector.Listed next path later := by
  cases carries.fate path with
  | modified there _ stamped => exact ⟨_, stamped, listed.2⟩
  | recased adopts stamped => exact ⟨_, stamped, listed.2⟩
  | added _ _ _ stamped => exact ⟨_, stamped, listed.2⟩
  | deleted reported _ =>
      have gone := (gone_of_deleted succeeded reported).2.1
      exact absurd (gone.symm.trans onDisk.1) (Option.some_ne_none bytes).symm
  | kept _ same => exact ⟨stamp, same.trans listed.1, listed.2⟩

omit distinct in
theorem Carries.listed_of_next {path : Path} {bytes : Bytes} {stamp : BaseStamp}
    (onDisk : detector.OnDisk tree path bytes) (listed : detector.Listed next path stamp)
    (adopts : ∃ key stamp, detector.Adopts tree base path bytes key stamp) :
    ∃ earlier, detector.Listed base path earlier := by
  cases carries.fate path with
  | modified _ earlier _ => exact ⟨_, earlier⟩
  | recased adopted _ => exact ⟨_, adopted.listed⟩
  | added there _ fresh _ =>
      obtain ⟨key, stamp, adopts⟩ := adopts
      rw [there.unique onDisk] at fresh
      exact absurd adopts (fresh key stamp)
  | deleted reported _ => exact (gone_of_deleted succeeded reported).1
  | kept _ same => exact ⟨stamp, same.symm.trans listed.1, listed.2⟩

omit distinct in
theorem Carries.listed_of_adopts {path key : Path} {bytes : Bytes} {stamp : BaseStamp}
    (adopts : detector.Adopts tree base path bytes key stamp) :
    ∃ later, detector.Listed next key later := by
  cases carries.fate key with
  | modified there _ _ => exact absurd there (adopts.absent _)
  | recased _ stamped => exact ⟨_, stamped, adopts.listed.2⟩
  | added there _ _ _ => exact absurd there (adopts.absent _)
  | deleted reported _ =>
      exact absurd adopts.unmatched ((gone_of_deleted succeeded reported).2.2.1 path bytes)
  | kept _ same => exact ⟨stamp, same.trans adopts.listed.1, adopts.listed.2⟩

/-- The adoptions of the base are those of the tip. -/
theorem Carries.adopts_iff {path key : Path} {bytes : Bytes} {stamp : BaseStamp} :
    detector.Adopts tree next path bytes key stamp ↔
      detector.Listed next key stamp ∧
        ∃ earlier, detector.Adopts tree base path bytes key earlier := by
  constructor
  · intro adopts
    refine ⟨adopts.listed, ?_⟩
    cases carries.fate key with
    | modified there _ _ => exact absurd there (adopts.absent _)
    | recased earlier _ =>
        have sameFile := distinct _ _ _ _ earlier.unmatched.onDisk adopts.unmatched.onDisk
          (earlier.unmatched.folds.trans adopts.unmatched.folds.symm)
        subst sameFile
        rw [← earlier.unmatched.onDisk.unique adopts.unmatched.onDisk]
        exact ⟨_, earlier⟩
    | added there _ _ _ => exact absurd there (adopts.absent _)
    | deleted reported erased =>
        exact absurd (erased.symm.trans adopts.listed.1) (Option.some_ne_none stamp).symm
    | kept _ same =>
        have listed : detector.Listed base key stamp :=
          ⟨same.symm.trans adopts.listed.1, adopts.listed.2⟩
        refine ⟨stamp, ⟨adopts.unmatched.onDisk, ?_, adopts.unmatched.folds, ?_⟩, listed, ?_,
          adopts.absent⟩
        · intro earlier isListed
          obtain ⟨later, stays⟩ :=
            carries.listed_of_onDisk succeeded adopts.unmatched.onDisk isListed
          exact adopts.unmatched.unlisted later stays
        · intro other content there _ alike
          exact distinct _ _ _ _ there adopts.unmatched.onDisk
            (alike.trans adopts.unmatched.folds.symm)
        · intro other otherStamp otherListed alike
          cases carries.fate other with
          | modified _ _ stamped => exact adopts.single _ _ ⟨stamped, otherListed.2⟩ alike
          | recased _ stamped => exact adopts.single _ _ ⟨stamped, otherListed.2⟩ alike
          | added _ _ _ stamped => exact adopts.single _ _ ⟨stamped, otherListed.2⟩ alike
          | deleted reported _ =>
              by_contra different
              exact unfolded_of_deleted succeeded reported listed alike.symm
                (Ne.symm different) adopts.unmatched.onDisk
                (adopts.unmatched.folds.trans alike.symm)
          | kept _ otherSame =>
              exact adopts.single _ _ ⟨otherSame.trans otherListed.1, otherListed.2⟩ alike
  · rintro ⟨listed, earlier, adopts⟩
    refine ⟨⟨adopts.unmatched.onDisk, ?_, adopts.unmatched.folds, ?_⟩, listed, ?_,
      adopts.absent⟩
    · intro later isListed
      obtain ⟨before, wasListed⟩ := carries.listed_of_next succeeded adopts.unmatched.onDisk
        isListed ⟨key, earlier, adopts⟩
      exact adopts.unmatched.unlisted before wasListed
    · intro other content there _ alike
      exact distinct _ _ _ _ there adopts.unmatched.onDisk
        (alike.trans adopts.unmatched.folds.symm)
    · intro other otherStamp otherListed alike
      have notFile : ∀ content, detector.OnDisk tree other content → other = path :=
        fun content there => distinct _ _ _ _ there adopts.unmatched.onDisk
          (alike.trans adopts.unmatched.folds.symm)
      cases carries.fate other with
      | modified there wasListed _ => exact adopts.single _ _ wasListed alike
      | recased adopted _ => exact adopts.single _ _ adopted.listed alike
      | added there _ fresh _ =>
          obtain rfl := notFile _ there
          rw [there.unique adopts.unmatched.onDisk] at fresh
          exact absurd adopts (fresh key earlier)
      | deleted _ erased =>
          exact absurd (erased.symm.trans otherListed.1) (Option.some_ne_none _).symm
      | kept _ otherSame =>
          exact adopts.single _ _ ⟨otherSame.symm.trans otherListed.1, otherListed.2⟩ alike

omit succeeded distinct carries

section

variable (succeeded : detector.detectLocalChangesWith tree base = .ok result)
include succeeded

theorem mem_diskPaths {key path : Path} :
    (key, path) ∈ result.diskPaths ↔
      ∃ bytes stamp, detector.Adopts tree base path bytes key stamp := by
  have isAdoptions : result.diskPaths =
      (unmatched (detector.narrowed base) (detector.walk tree)).filterMap fun file =>
        (detector.adopts (detector.narrowed base) ((detector.walk tree).map Prod.fst)
          (unmatched (detector.narrowed base) (detector.walk tree)) file).map
            fun entry => (entry.1, file.1) := by
    unfold detectLocalChangesWith at succeeded
    simp only [bind, Except.bind] at succeeded
    split at succeeded
    · cases succeeded
    · split at succeeded
      · cases succeeded
      · cases succeeded
        rfl
  rw [isAdoptions, List.mem_filterMap]
  constructor
  · rintro ⟨⟨file, bytes⟩, member, isAdopted⟩
    obtain ⟨⟨name, stamp⟩, adopts, same⟩ := Option.map_eq_some_iff.mp isAdopted
    obtain ⟨rfl, rfl⟩ := Prod.mk.inj same
    exact ⟨bytes, stamp, (Detector.adopts_iff member).mp adopts⟩
  · rintro ⟨bytes, stamp, adopts⟩
    have member := mem_unmatched.mpr ⟨adopts.unmatched.onDisk, adopts.unmatched.unlisted⟩
    exact ⟨(path, bytes), member, by rw [(Detector.adopts_iff member).mpr adopts]; rfl⟩

theorem diskPath_of_adopts {path key : Path} {bytes : Bytes} {stamp : BaseStamp}
    (adopts : detector.Adopts tree base path bytes key stamp) : result.diskPath key = path := by
  unfold LocalChanges.diskPath
  cases found : result.diskPaths.find? fun pair => pair.1 = key with
  | none =>
      have unlike := List.find?_eq_none.mp found _ ((mem_diskPaths succeeded).mpr
        ⟨bytes, stamp, adopts⟩)
      exact absurd (decide_eq_true rfl) unlike
  | some pair =>
      obtain ⟨name, file⟩ := pair
      obtain rfl : name = key := by simpa using List.find?_some found
      obtain ⟨content, other, adopted⟩ :=
        (mem_diskPaths succeeded).mp (List.mem_of_find?_eq_some found)
      exact adopted.same_file adopts

theorem diskPath_of_unadopted {key : Path}
    (unadopted : ∀ path bytes stamp, ¬detector.Adopts tree base path bytes key stamp) :
    result.diskPath key = key := by
  unfold LocalChanges.diskPath
  cases found : result.diskPaths.find? fun pair => pair.1 = key with
  | none => rfl
  | some pair =>
      obtain ⟨name, file⟩ := pair
      obtain rfl : name = key := by simpa using List.find?_some found
      obtain ⟨content, other, adopted⟩ :=
        (mem_diskPaths succeeded).mp (List.mem_of_find?_eq_some found)
      exact absurd adopted (unadopted _ _ _)

end

variable {lfDigests : Option (AList fun _ : Path => Sha)}

theorem adopts_withDigests {path key : Path} {bytes : Bytes} {stamp : BaseStamp} :
    Adopts { detector with lfDigests := lfDigests } tree base path bytes key stamp ↔
      detector.Adopts tree base path bytes key stamp := by
  constructor
  · intro adopts
    exact ⟨⟨adopts.unmatched.onDisk, adopts.unmatched.unlisted, adopts.unmatched.folds,
      adopts.unmatched.single⟩, adopts.listed, adopts.single, adopts.absent⟩
  · intro adopts
    exact ⟨⟨adopts.unmatched.onDisk, adopts.unmatched.unlisted, adopts.unmatched.folds,
      adopts.unmatched.single⟩, adopts.listed, adopts.single, adopts.absent⟩

theorem unchanged_own (detector : Detector) (path : Path) (bytes : Bytes) :
    detector.unchanged path (detector.stampOfContent bytes) bytes = true := by
  simp [unchanged, sameAsBase, stampOfContent]

theorem unchanged_withDigests {path : Path} (stamp : BaseStamp) (bytes : Bytes)
    (agree : lfDigests.bind (fun digests => digests.lookup path) =
      detector.lfDigests.bind fun digests => digests.lookup path) :
    unchanged { detector with lfDigests := lfDigests } path stamp bytes =
      detector.unchanged path stamp bytes := by
  unfold unchanged
  rw [agree]
  rfl

section Next

variable (succeeded : detector.detectLocalChangesWith tree base = .ok result)
  (distinct : detector.DistinctOnDisk tree)
  (carries : detector.Carries tree base next result carried)
  (agree : ∀ path, next.lookup path = base.lookup path →
    lfDigests.bind (fun digests => digests.lookup path) =
      detector.lfDigests.bind fun digests => digests.lookup path)
include succeeded distinct carries agree

variable {change : LocalChange}

/-- What the next detection reports was reported before and not carried. -/
theorem Carries.reported_before
    (reports : Reports { detector with lfDigests := lfDigests } tree next change) :
    detector.Reports tree base change ∧ change ∉ carried := by
  have own : ∀ path bytes,
      unchanged { detector with lfDigests := lfDigests } path (detector.stampOfContent bytes)
        bytes = true :=
    unchanged_own { detector with lfDigests := lfDigests }
  cases reports with
  | @modified path bytes stamp onDisk small listed changed =>
      cases carries.fate path with
      | modified there _ stamped =>
          rw [Option.some.inj (listed.1.symm.trans stamped), there.unique onDisk, own] at changed
          cases changed
      | recased adopts _ => exact absurd onDisk (adopts.absent bytes)
      | added there _ _ stamped =>
          rw [Option.some.inj (listed.1.symm.trans stamped), there.unique onDisk, own] at changed
          cases changed
      | deleted _ erased =>
          exact absurd (erased.symm.trans listed.1) (Option.some_ne_none stamp).symm
      | kept unnamed same =>
          rw [unchanged_withDigests stamp bytes (agree path same)] at changed
          exact ⟨.modified onDisk small ⟨same.symm.trans listed.1, listed.2⟩ changed,
            fun member => unnamed _ member rfl⟩
  | @recased path bytes key stamp adopts small changed =>
      have later := adopts_withDigests.mp adopts
      obtain ⟨listed, earlier, before⟩ := (carries.adopts_iff succeeded distinct).mp later
      cases carries.fate key with
      | modified there _ _ => exact absurd there (later.absent _)
      | recased adopted stamped =>
          have sameFile := adopted.same_file before
          subst sameFile
          rw [Option.some.inj (listed.1.symm.trans stamped),
            adopted.unmatched.onDisk.unique before.unmatched.onDisk, own] at changed
          cases changed
      | added there _ _ _ => exact absurd there (later.absent _)
      | deleted _ erased =>
          exact absurd (erased.symm.trans listed.1) (Option.some_ne_none stamp).symm
      | kept unnamed same =>
          have sameStamp : earlier = stamp :=
            Option.some.inj (before.listed.1.symm.trans (same.symm.trans listed.1))
          subst sameStamp
          rw [unchanged_withDigests earlier bytes (agree key same)] at changed
          exact ⟨.recased before small changed, fun member => unnamed _ member rfl⟩
  | @added path bytes onDisk small unlisted fresh =>
      cases carries.fate path with
      | modified _ _ stamped => exact absurd ⟨stamped, onDisk.2⟩ (unlisted _)
      | recased adopts stamped => exact absurd ⟨stamped, onDisk.2⟩ (unlisted _)
      | added _ _ _ stamped => exact absurd ⟨stamped, onDisk.2⟩ (unlisted _)
      | deleted reported _ =>
          have gone := (gone_of_deleted succeeded reported).2.1
          exact absurd (gone.symm.trans onDisk.1) (Option.some_ne_none bytes).symm
      | kept unnamed same =>
          refine ⟨.added onDisk small ?_ ?_, fun member => unnamed _ member rfl⟩
          · intro stamp listed
            exact unlisted stamp ⟨same.trans listed.1, listed.2⟩
          · intro key stamp adopts
            obtain ⟨later, listed⟩ := carries.listed_of_adopts succeeded adopts
            exact fresh key later (adopts_withDigests.mpr
              ((carries.adopts_iff succeeded distinct).mpr ⟨listed, stamp, adopts⟩))
  | @deleted path stamp listed absent unadopted noTwin =>
      have unclaimed : ∀ file bytes earlier,
          ¬detector.Adopts tree base file bytes path earlier := by
        intro file bytes earlier adopts
        exact unadopted file bytes (adopts_withDigests.mpr
          ((carries.adopts_iff succeeded distinct).mpr ⟨listed, earlier, adopts⟩))
      cases carries.fate path with
      | modified there _ _ => exact absurd there (absent _)
      | recased adopts _ => exact absurd adopts (unclaimed _ _ _)
      | added there _ _ _ => exact absurd there (absent _)
      | deleted _ erased =>
          exact absurd (erased.symm.trans listed.1) (Option.some_ne_none stamp).symm
      | kept unnamed same =>
          refine ⟨.deleted ⟨same.symm.trans listed.1, listed.2⟩ absent
            (fun file bytes => unclaimed file bytes stamp) ?_, fun member => unnamed _ member rfl⟩
          intro other otherStamp otherListed alike bytes onDisk
          obtain ⟨later, stays⟩ := carries.listed_of_onDisk succeeded onDisk otherListed
          exact noTwin other later stays alike bytes onDisk

/-- What was reported and not carried is reported again. -/
theorem Carries.reported_again (reports : detector.Reports tree base change)
    (left : change ∉ carried) :
    Reports { detector with lfDigests := lfDigests } tree next change := by
  have kept : next.lookup change.path = base.lookup change.path := by
    refine carries.keeps _ fun other member same => left ?_
    have sameChange : other = change :=
      List.inj_on_of_nodup_map (nodup_changes succeeded) (carries.detected other member)
        ((mem_changes succeeded).mpr reports) same
    exact sameChange ▸ member
  cases reports with
  | @modified path bytes stamp onDisk small listed changed =>
      refine .modified onDisk small ⟨kept.trans listed.1, listed.2⟩ ?_
      rw [unchanged_withDigests stamp bytes (agree path kept)]
      exact changed
  | @recased path bytes key stamp adopts small changed =>
      refine .recased (adopts_withDigests.mpr ((carries.adopts_iff succeeded distinct).mpr
        ⟨⟨kept.trans adopts.listed.1, adopts.listed.2⟩, stamp, adopts⟩)) small ?_
      rw [unchanged_withDigests stamp bytes (agree key kept)]
      exact changed
  | @added path bytes onDisk small unlisted fresh =>
      refine .added onDisk small ?_ ?_
      · intro stamp listed
        exact unlisted stamp ⟨kept.symm.trans listed.1, listed.2⟩
      · intro key later adopts
        obtain ⟨-, earlier, before⟩ :=
          (carries.adopts_iff succeeded distinct).mp (adopts_withDigests.mp adopts)
        exact fresh key earlier before
  | @deleted path stamp listed absent unadopted noTwin =>
      refine .deleted ⟨kept.trans listed.1, listed.2⟩ absent ?_ ?_
      · intro file bytes adopts
        obtain ⟨-, earlier, before⟩ :=
          (carries.adopts_iff succeeded distinct).mp (adopts_withDigests.mp adopts)
        rw [before.listed.unique listed] at before
        exact unadopted file bytes before
      · intro other otherStamp otherListed alike bytes onDisk
        cases carries.fate other with
        | modified _ wasListed _ => exact noTwin _ _ wasListed alike bytes onDisk
        | recased adopts _ => exact adopts.absent bytes onDisk
        | @added content there unlisted fresh _ =>
            -- the file would have adopted the path, or detection refused
            have reported := (mem_changes succeeded).mpr
              (.deleted listed absent unadopted noTwin)
            refine (gone_of_deleted succeeded reported).2.2.1 other content
              ⟨there, unlisted, alike, ?_⟩
            intro another held thereToo _ alikeToo
            exact distinct _ _ _ _ thereToo there (alikeToo.trans alike.symm)
        | deleted _ erased =>
            exact absurd (erased.symm.trans otherListed.1) (Option.some_ne_none _).symm
        | kept _ same =>
            exact noTwin other otherStamp ⟨same.symm.trans otherListed.1, otherListed.2⟩ alike
              bytes onDisk

end Next

/-- A detection every pass of which answers succeeds. -/
theorem detect_of_passes
    (adoptions : ∀ file ∈ unmatched (detector.narrowed base) (detector.walk tree),
      ∃ answer, detector.adoption (detector.narrowed base) ((detector.walk tree).map Prod.fst)
        (unmatched (detector.narrowed base) (detector.walk tree)) file = .ok answer)
    (deletions : ∀ path ∈ (detector.narrowed base).map Prod.fst,
      ∃ answer, detector.deletion tree (detector.narrowed base)
        ((detector.walk tree).map Prod.fst) (detector.adopted tree base) path = .ok answer) :
    ∃ result, detector.detectLocalChangesWith tree base = .ok result := by
  obtain ⟨renamed, isRenamed⟩ := Keyed.exists_mapM_ok adoptions
  obtain ⟨deleted, isDeleted⟩ := Keyed.exists_mapM_ok deletions
  unfold detectLocalChangesWith
  simp only [bind, Except.bind]
  rw [isRenamed]
  simp only [adopted] at isDeleted
  simp only [isDeleted]
  exact ⟨_, rfl⟩

theorem presence_of_deleted
    (succeeded : detector.detectLocalChangesWith tree base = .ok result) {path : Path}
    (reported : .deleted path ∈ result.changes) : presence tree path = .notFound := by
  have reports := (mem_changes succeeded).mp reported
  cases reports with
  | @deleted _ stamp listed absent unadopted noTwin =>
      obtain ⟨run⟩ := passes succeeded
      obtain ⟨answer, isAnswer⟩ := Keyed.ok_of_mapM run.deletions
        (List.mem_map.mpr ⟨(path, stamp), mem_narrowed.mpr listed, rfl⟩)
      rw [(deletion_reports listed isAnswer (.deleted path)).mpr
        ⟨rfl, absent, unadopted, noTwin⟩] at isAnswer
      unfold deletion at isAnswer
      split at isAnswer
      · cases isAnswer
      · dsimp only at isAnswer
        split at isAnswer
        · cases isAnswer
        · split at isAnswer
          · assumption
          · cases isAnswer
          · cases isAnswer

/-- Where nothing on disk stands for a base path, and it is not there, the
subtraction answers. -/
theorem deletion_of_gone (detector : Detector) {path : Path} (notThere : presence tree path = .notFound)
    (nothing : ∀ file bytes, detector.OnDisk tree file bytes →
      detector.foldCase file ≠ detector.foldCase path) :
    ∃ answer, detector.deletion tree (detector.narrowed base)
      ((detector.walk tree).map Prod.fst) (detector.adopted tree base) path = .ok answer := by
  unfold deletion
  split
  · exact ⟨none, rfl⟩
  · dsimp only
    rw [if_neg]
    · rw [notThere]
      exact ⟨_, rfl⟩
    · rw [Bool.and_eq_true, not_and_or]
      refine .inl fun folded => ?_
      rw [List.contains_iff_mem, List.mem_map] at folded
      obtain ⟨file, seen, alike⟩ := folded
      obtain ⟨bytes, onDisk⟩ := mem_seen.mp seen
      exact nothing file bytes onDisk alike

/-- The subtraction has nothing to say of a base path some file stands for. -/
theorem deletion_of_stands (detector : Detector) {path : Path} {stamp : BaseStamp}
    (listed : detector.Listed base path stamp)
    (stands : (∃ bytes, detector.OnDisk tree path bytes) ∨
      (∃ file bytes, detector.Adopts tree base file bytes path stamp) ∨
        ∃ other otherStamp bytes, detector.Listed base other otherStamp ∧
          detector.foldCase other = detector.foldCase path ∧
            detector.OnDisk tree other bytes) :
    ∃ answer, detector.deletion tree (detector.narrowed base)
      ((detector.walk tree).map Prod.fst) (detector.adopted tree base) path = .ok answer := by
  refine ⟨none, ?_⟩
  unfold deletion
  rw [if_pos]
  simp only [Bool.or_eq_true, List.contains_iff_mem, mem_seen, mem_adopted]
  by_cases seen : ∃ bytes, detector.OnDisk tree path bytes
  · exact .inl (.inl seen)
  · rw [removedButForCase_iff listed (not_exists.mp seen)]
    rcases stands with there | ⟨file, bytes, adopts⟩ | twin
    · exact .inl (.inl there)
    · exact .inl (.inr ⟨file, bytes, stamp, adopts⟩)
    · exact .inr twin

theorem detect_next (lfDigests : Option (AList fun _ : Path => Sha))
    (succeeded : detector.detectLocalChangesWith tree base = .ok result)
    (distinct : detector.DistinctOnDisk tree)
    (carries : detector.Carries tree base next result carried) :
    ∃ rest, detectLocalChangesWith { detector with lfDigests := lfDigests } tree next =
      .ok rest := by
  have adopts_iff : ∀ {path key bytes stamp},
      Adopts { detector with lfDigests := lfDigests } tree next path bytes key stamp ↔
        detector.Listed next key stamp ∧
          ∃ earlier, detector.Adopts tree base path bytes key earlier :=
    fun {_ _ _ _} => adopts_withDigests.trans (carries.adopts_iff succeeded distinct)
  refine detect_of_passes ?_ ?_
  · rintro ⟨path, bytes⟩ member
    unfold adoption
    cases claims : adopts { detector with lfDigests := lfDigests } _ _ _ (path, bytes) with
    | none =>
        dsimp only
        split
        · exact ⟨_, rfl⟩
        · exact ⟨_, rfl⟩
    | some entry =>
        obtain ⟨key, stamp⟩ := entry
        obtain ⟨-, earlier, before⟩ := adopts_iff.mp ((Detector.adopts_iff member).mp claims)
        have small : isLarge (path, bytes) = false :=
          isLarge_eq_false.mpr (before.isSmall succeeded)
        dsimp only
        rw [small, if_neg Bool.false_ne_true]
        split
        · exact ⟨_, rfl⟩
        · exact ⟨_, rfl⟩
  · intro path member
    obtain ⟨⟨name, stamp⟩, listed, rfl⟩ := List.mem_map.mp member
    have listed : detector.Listed next name stamp := mem_narrowed.mp listed
    by_cases stands : (∃ bytes, detector.OnDisk tree name bytes) ∨
        (∃ file bytes, Adopts { detector with lfDigests := lfDigests } tree next file bytes
          name stamp) ∨
          ∃ other otherStamp bytes, detector.Listed next other otherStamp ∧
            detector.foldCase other = detector.foldCase name ∧
              detector.OnDisk tree other bytes
    · exact deletion_of_stands { detector with lfDigests := lfDigests } listed
        stands
    · rw [not_or, not_or] at stands
      obtain ⟨absent, unadopted, noTwin⟩ := stands
      have unclaimed : ∀ file bytes earlier,
          ¬detector.Adopts tree base file bytes name earlier := fun file bytes earlier adopts =>
        unadopted ⟨file, bytes, adopts_iff.mpr ⟨listed, earlier, adopts⟩⟩
      have reported : .deleted name ∈ result.changes := by
        refine (mem_changes succeeded).mpr ?_
        cases carries.fate name with
        | modified there _ _ => exact absurd ⟨_, there⟩ absent
        | recased adopts _ => exact absurd adopts (unclaimed _ _ _)
        | added there _ _ _ => exact absurd ⟨_, there⟩ absent
        | deleted _ erased =>
            exact absurd (erased.symm.trans listed.1) (Option.some_ne_none stamp).symm
        | kept _ same =>
            refine .deleted ⟨same.symm.trans listed.1, listed.2⟩ (not_exists.mp absent)
              (fun file bytes => unclaimed file bytes stamp) ?_
            intro other otherStamp otherListed alike bytes onDisk
            obtain ⟨later, stays⟩ := carries.listed_of_onDisk succeeded onDisk otherListed
            exact noTwin ⟨other, later, bytes, stays, alike, onDisk⟩
      refine deletion_of_gone { detector with lfDigests := lfDigests }
        (presence_of_deleted succeeded reported) ?_
      intro file bytes onDisk alike
      obtain ⟨-, -, single, gone⟩ := gone_of_deleted succeeded reported
      by_cases known : ∃ earlier, detector.Listed base file earlier
      · obtain ⟨earlier, known⟩ := known
        exact absurd ((gone file earlier known alike).symm.trans onDisk.1)
          (Option.some_ne_none bytes).symm
      · refine single file bytes ⟨onDisk, not_exists.mp known, alike, ?_⟩
        intro other content there _ otherAlike
        exact distinct _ _ _ _ there onDisk (otherAlike.trans alike.symm)

end Detector

end Crystalline.Remote
