import Crystalline.Remote.PullKeeps
import Crystalline.Remote.UpstreamAgree

/-!
# A pull of either reading

The edits of a compare are those of the tarball and removals of files the
manifest does not list.  The merge loop keeps such a path as it is, so a pull
ends the same whichever way upstream was read.
-/

namespace Crystalline.Remote

open Text

namespace Pull

variable {Value : Type} [DecidableEq Value] {pull : Pull Value}

/-- The shorter list of edits leaves out the removals of unlisted files. -/
structure Trims (files : Snapshot) (long short : List UpstreamEdit) : Prop where
  longOnce : (long.map UpstreamEdit.path).Nodup
  shortOnce : (short.map UpstreamEdit.path).Nodup
  edits : ∀ edit : UpstreamEdit, edit ∈ short ↔
    edit ∈ long ∧ (edit.content = none → files.lookup edit.path ≠ none)

/-- The two recorded conflicts differ in their ids only. -/
structure SameRecord (one two : MergeRun) (left right : Conflict) : Prop where
  path : right.path = left.path
  kind : right.kind = left.kind
  baseCommit : right.baseCommit = left.baseCommit
  upstreamCommit : right.upstreamCommit = left.upstreamCommit
  files : two.conflictFiles.lookup right.id = one.conflictFiles.lookup left.id

/-- Every conflict of one run is a conflict of the other. -/
def Covers (one two : MergeRun) : Prop :=
  ∀ left ∈ one.conflicts, ∃ right ∈ two.conflicts, SameRecord one two left right

/-- Two pulls that end the same: the working tree, the base copies, the base
records and the conflicts. -/
structure SameEnd (one two : Pulled) : Prop where
  tree : ∀ path, one.run.tree.lookup path = two.run.tree.lookup path
  copies : ∀ path, one.copies.lookup path = two.copies.lookup path
  files : ∀ path, one.state.files.lookup path = two.state.files.lookup path
  digests : ∀ path, one.state.lfDigests.lookup path = two.state.lfDigests.lookup path
  baseCommit : one.state.baseCommit = two.state.baseCommit
  conflicts : Covers one.run two.run ∧ Covers two.run one.run

theorem fate_of_unlisted {path : Path} (unlisted : pull.state.files.lookup path = none)
    {local_ : Option Bytes}
    (noOverride : proposalOverrideApplies pull.sha256Hex pull.mergedToConsume path local_ =
      false) : pull.fate local_ ⟨path, none⟩ = .kept := by
  have noBase : pull.mergeBase path local_ none = none := by
    simp [mergeBase, baseOf, unlisted]
  have unsettled : pull.settled path local_ none = none := by
    unfold settled
    rw [Merger.settledManifest_of_removed, ite_self]
  unfold fate
  split
  · rfl
  · rw [noOverride, noBase, unsettled]
    simp only [Bool.false_eq_true, if_false, Merger.mergeFile_of_unchanged]

section Trimmed

variable {tree : Tree} {long short : List UpstreamEdit}
  (conflictFiles : AList fun _ : Nat => ConflictFiles)

theorem Trims.cases {files : Snapshot} (trims : Trims files long short) (path : Path) :
    (∃ content, ⟨path, content⟩ ∈ long ∧ ⟨path, content⟩ ∈ short) ∨
      (path ∉ short.map UpstreamEdit.path ∧ path ∉ long.map UpstreamEdit.path) ∨
        (path ∉ short.map UpstreamEdit.path ∧ ⟨path, none⟩ ∈ long ∧
          files.lookup path = none) := by
  by_cases inShort : path ∈ short.map UpstreamEdit.path
  · obtain ⟨⟨_, content⟩, member, rfl⟩ := List.mem_map.mp inShort
    exact .inl ⟨content, ((trims.edits _).mp member).1, member⟩
  · by_cases inLong : path ∈ long.map UpstreamEdit.path
    · refine .inr (.inr ⟨inShort, ?_⟩)
      obtain ⟨edit, member, isPath⟩ := List.mem_map.mp inLong
      have left : ¬ (edit.content = none → files.lookup edit.path ≠ none) := by
        intro kept
        exact inShort (List.mem_map.mpr ⟨edit, (trims.edits edit).mpr ⟨member, kept⟩, isPath⟩)
      obtain ⟨removal, unlisted⟩ := Classical.not_imp.mp left
      obtain ⟨name, content⟩ := edit
      obtain rfl : name = path := isPath
      obtain rfl : content = none := removal
      exact ⟨member, not_not.mp unlisted⟩
    · exact .inr (.inl ⟨inShort, inLong⟩)

theorem removalsFirst_named {edits : List UpstreamEdit} {path : Path} :
    path ∈ (removalsFirst edits).map UpstreamEdit.path ↔ path ∈ edits.map UpstreamEdit.path :=
  ((removalsFirst_perm edits).map UpstreamEdit.path).mem_iff

theorem trimmed_tree (trims : Trims pull.state.files long short)
    (noOverride : ∀ path, pull.state.files.lookup path = none → ⟨path, none⟩ ∈ long →
      proposalOverrideApplies pull.sha256Hex pull.mergedToConsume path (tree.lookup path) =
        false) (path : Path) :
    (pull.mergeLoop tree conflictFiles long).tree.lookup path =
      (pull.mergeLoop tree conflictFiles short).tree.lookup path := by
  have longDistinct := removalsFirst_distinct trims.longOnce
  have shortDistinct := removalsFirst_distinct trims.shortOnce
  unfold mergeLoop
  obtain ⟨content, inLong, inShort⟩ | ⟨unShort, unLong⟩ | ⟨unShort, inLong, unlisted⟩ :=
    trims.cases path
  · have longEnd := loop_here pull longDistinct (mem_removalsFirst.mpr inLong)
    have shortEnd := loop_here pull shortDistinct (mem_removalsFirst.mpr inShort)
    dsimp only at longEnd shortEnd
    rw [longEnd, shortEnd]
  · rw [loop_elsewhere (mt removalsFirst_named.mp unLong),
      loop_elsewhere (mt removalsFirst_named.mp unShort)]
  · have longEnd := loop_here pull longDistinct (mem_removalsFirst.mpr inLong)
    dsimp only at longEnd
    rw [longEnd, loop_elsewhere (mt removalsFirst_named.mp unShort),
      fate_of_unlisted unlisted (noOverride path unlisted inLong)]
    rfl

/-- Every conflict of one loop is one of the other. -/
theorem covers_of_edits (fresh : pull.FreshIds) {one two : List UpstreamEdit}
    (oneDistinct : (one.map UpstreamEdit.path).Nodup)
    (twoDistinct : (two.map UpstreamEdit.path).Nodup)
    (conflicting : ∀ edit ∈ one, ∀ kind,
      pull.fate (tree.lookup edit.path) edit = .conflict kind → edit ∈ two) :
    Covers (pull.mergeLoop tree conflictFiles one) (pull.mergeLoop tree conflictFiles two) := by
  intro left member
  unfold mergeLoop at member ⊢
  rcases (loop_conflicts fresh (removalsFirst_distinct oneDistinct) _ _).mp member with
    old | ⟨-, edit, found, kind, ends, unrecorded, records⟩
  · -- Recorded before: both loops keep it.
    have oneKeeps := loop_keeps fresh (removalsFirst one)
      ⟨tree, pull.state.conflicts, conflictFiles, [], [], []⟩
    have twoKeeps := loop_keeps fresh (removalsFirst two)
      ⟨tree, pull.state.conflicts, conflictFiles, [], [], []⟩
    refine ⟨left, twoKeeps.conflicts left old, rfl, rfl, rfl, rfl, ?_⟩
    exact (twoKeeps.files left old).trans (oneKeeps.files left old).symm
  · have inTwo := conflicting edit (mem_removalsFirst.mp found) kind ends
    obtain ⟨right, rightMember, rightRecords⟩ := loop_records fresh
      (removalsFirst_distinct twoDistinct) _ (mem_removalsFirst.mpr inTwo) ends unrecorded
    refine ⟨right, rightMember, ?_, ?_, ?_, ?_, ?_⟩
    · rw [rightRecords.path, records.path]
    · rw [rightRecords.kind, records.kind]
    · rw [rightRecords.baseCommit, records.baseCommit]
    · rw [rightRecords.upstreamCommit, records.upstreamCommit]
    · rw [rightRecords.files, records.files]

/-- The conflicts of the two loops are the same. -/
theorem trimmed_conflicts (trims : Trims pull.state.files long short) (fresh : pull.FreshIds)
    (noOverride : ∀ path, pull.state.files.lookup path = none → ⟨path, none⟩ ∈ long →
      proposalOverrideApplies pull.sha256Hex pull.mergedToConsume path (tree.lookup path) =
        false) :
    Covers (pull.mergeLoop tree conflictFiles long) (pull.mergeLoop tree conflictFiles short) ∧
      Covers (pull.mergeLoop tree conflictFiles short)
        (pull.mergeLoop tree conflictFiles long) := by
  constructor
  · apply covers_of_edits conflictFiles fresh trims.longOnce trims.shortOnce
    rintro ⟨path, content⟩ member kind ends
    refine (trims.edits _).mpr ⟨member, ?_⟩
    rintro rfl unlisted
    rw [fate_of_unlisted unlisted (noOverride path unlisted member)] at ends
    cases ends
  · apply covers_of_edits conflictFiles fresh trims.shortOnce trims.longOnce
    intro edit member kind _
    exact ((trims.edits edit).mp member).1

omit [DecidableEq Value] in
/-- Both base advances record the same. -/
theorem trimmed_base (trims : Trims pull.state.files long short)
    (mirrors : Mirrors pull.sha256Hex pull.copies pull.state)
    (conflicts conflicts' : List Conflict) (path : Path) :
    SameAt ((removalsFirst long).foldl pull.advanceStep
        (pull.copies, { pull.state with conflicts := conflicts }))
      ((removalsFirst short).foldl pull.advanceStep
        (pull.copies, { pull.state with conflicts := conflicts' })) path := by
  have longDistinct := removalsFirst_distinct trims.longOnce
  have shortDistinct := removalsFirst_distinct trims.shortOnce
  obtain ⟨content, inLong, inShort⟩ | ⟨unShort, unLong⟩ | ⟨unShort, inLong, unlisted⟩ :=
    trims.cases path
  · have longEnd := advance_here pull longDistinct (mem_removalsFirst.mpr inLong)
      (pull.copies, { pull.state with conflicts := conflicts })
    have shortEnd := advance_here pull shortDistinct (mem_removalsFirst.mpr inShort)
      (pull.copies, { pull.state with conflicts := conflicts' })
    exact ⟨shortEnd.copy.trans longEnd.copy.symm, shortEnd.file.trans longEnd.file.symm,
      shortEnd.digest.trans longEnd.digest.symm⟩
  · have longEnd := advance_elsewhere pull (mt removalsFirst_named.mp unLong)
      (pull.copies, { pull.state with conflicts := conflicts })
    have shortEnd := advance_elsewhere pull (mt removalsFirst_named.mp unShort)
      (pull.copies, { pull.state with conflicts := conflicts' })
    exact ⟨shortEnd.copy.trans longEnd.copy.symm, shortEnd.file.trans longEnd.file.symm,
      shortEnd.digest.trans longEnd.digest.symm⟩
  · -- Nothing was recorded of the path, so nothing is forgotten.
    have longEnd := advance_here pull longDistinct (mem_removalsFirst.mpr inLong)
      (pull.copies, { pull.state with conflicts := conflicts })
    have shortEnd := advance_elsewhere pull (mt removalsFirst_named.mp unShort)
      (pull.copies, { pull.state with conflicts := conflicts' })
    have noCopy : pull.copies.lookup path = none := by
      have recorded := mirrors.files path
      rw [unlisted] at recorded
      exact Option.map_eq_none_iff.mp recorded.symm
    have noDigest : pull.state.lfDigests.lookup path = none := by
      rw [Option.eq_none_iff_forall_ne_some]
      intro digest isDigest
      have known := mirrors.digests path digest isDigest
      rw [noCopy] at known
      cases known
    refine ⟨?_, ?_, ?_⟩
    · rw [longEnd.copy, shortEnd.copy]
      exact noCopy
    · rw [longEnd.file, shortEnd.file]
      exact unlisted
    · rw [longEnd.digest, shortEnd.digest]
      exact noDigest

/-- A pull of trimmed edits ends as a pull of all of them. -/
theorem pulled_trimmed (trims : Trims pull.state.files long short)
    (mirrors : Mirrors pull.sha256Hex pull.copies pull.state) (fresh : pull.FreshIds)
    (noOverride : ∀ path, pull.state.files.lookup path = none → ⟨path, none⟩ ∈ long →
      proposalOverrideApplies pull.sha256Hex pull.mergedToConsume path (tree.lookup path) =
        false) :
    SameEnd (pull.pulled tree conflictFiles long) (pull.pulled tree conflictFiles short) where
  tree := trimmed_tree conflictFiles trims noOverride
  copies path := (trimmed_base trims mirrors _ _ path).copy.symm
  files path := (trimmed_base trims mirrors _ _ path).file.symm
  digests path := (trimmed_base trims mirrors _ _ path).digest.symm
  baseCommit := rfl
  conflicts := trimmed_conflicts conflictFiles trims fresh noOverride

end Trimmed

end Pull

section Readings

variable {sub : Option Text} {base head : Tree} {blobSha : Bytes → Sha} {change : UpstreamChange}

theorem editsOf_named {edit : UpstreamEdit} (member : edit ∈ (editsOf sub head change).1) :
    toRepoRelative edit.path sub ∈ change.oldPath.toList ++ change.newPath.toList := by
  obtain ⟨rel, content⟩ := edit
  rw [editsOf, List.mem_append] at member
  rw [List.mem_append]
  rcases member with old | new
  · refine .inl ?_
    cases isOld : change.oldPath with
    | none => simp [isOld] at old
    | some path =>
        rw [isOld, Option.map_some, Option.getD_some, mem_oldSide] at old
        simp [old.2.1]
  · obtain ⟨bytes, -, isNew, -⟩ := mem_newEdits.mp new
    refine .inr ?_
    rw [isNew]
    exact List.mem_singleton_self _

variable (sub head) in
/-- A change edits each path once: its two sides are different paths. -/
theorem editsOf_distinct (once : (change.oldPath.toList ++ change.newPath.toList).Nodup) :
    ((editsOf sub head change).1.map UpstreamEdit.path).Nodup := by
  have oldOnce : ((change.oldPath.map (oldSide sub)).getD []).length ≤ 1 := by
    cases change.oldPath with
    | none => exact Nat.zero_le 1
    | some path =>
        simp only [Option.map_some, Option.getD_some, oldSide]
        split
        · exact Nat.le_refl 1
        · exact Nat.zero_le 1
  have newOnce : (newEdits sub head change).1.length ≤ 1 := by
    obtain ⟨rel, bytes, -, -, -, adds⟩ | ⟨adds, -⟩ := newEdits_cases sub head change
    · rw [adds]
      split
      · exact Nat.zero_le 1
      · exact Nat.le_refl 1
    · rw [adds]
      exact Nat.zero_le 1
  have short : ∀ edits : List UpstreamEdit, edits.length ≤ 1 →
      (edits.map UpstreamEdit.path).Nodup := by
    intro edits atMostOne
    cases edits with
    | nil => exact List.nodup_nil
    | cons edit edits =>
        cases edits with
        | nil => exact List.nodup_singleton _
        | cons _ _ => simp at atMostOne
  rw [editsOf, List.map_append]
  refine List.nodup_append.mpr ⟨short _ oldOnce, short _ newOnce, ?_⟩
  intro left leftMember right rightMember same
  obtain ⟨⟨rel, content⟩, old, rfl⟩ := List.mem_map.mp leftMember
  obtain ⟨⟨other, bytes⟩, new, rfl⟩ := List.mem_map.mp rightMember
  obtain rfl : rel = other := same
  obtain ⟨bytes, -, isNew, -⟩ := mem_newEdits.mp new
  cases isOld : change.oldPath with
  | none => simp [isOld] at old
  | some path =>
      rw [isOld, Option.map_some, Option.getD_some, mem_oldSide] at old
      rw [isOld, isNew, old.2.1] at once
      simp at once

theorem compareEdits_distinct {changes : List UpstreamChange} (once : (changes.flatMap fun change =>
      change.oldPath.toList ++ change.newPath.toList).Nodup) :
    ((changes.flatMap fun change => (editsOf sub head change).1).map
      UpstreamEdit.path).Nodup := by
  induction changes with
  | nil => exact List.nodup_nil
  | cons change changes induction =>
      rw [List.flatMap_cons, List.nodup_append] at once
      obtain ⟨first, rest, apart⟩ := once
      rw [List.flatMap_cons, List.map_append]
      refine List.nodup_append.mpr ⟨editsOf_distinct sub head first, induction rest, ?_⟩
      intro left leftMember right rightMember same
      obtain ⟨edit, member, rfl⟩ := List.mem_map.mp leftMember
      obtain ⟨other, otherMember, rfl⟩ := List.mem_map.mp rightMember
      obtain ⟨later, laterMember, ofLater⟩ := List.mem_flatMap.mp otherMember
      have named := editsOf_named member
      rw [same] at named
      exact apart _ named _
        (List.mem_flatMap.mpr ⟨later, laterMember, editsOf_named ofLater⟩) rfl

variable {Value : Type} [DecidableEq Value] (pull : Pull Value) (forge : UpstreamForge)
  (compare : CompareResult) (tree : Tree)

variable (sub base head blobSha) in
/-- What both readings start from: a forge that serves the head, a compare that
lists the difference to the base unless it says it is cut off, and the manifest
of the base.  No merged share overrides the removal of a file the manifest does
not list. -/
structure Readable : Prop where
  injective : Function.Injective pull.sha256Hex
  serves : Serves forge blobSha head
  compares : compare.truncated = false → Compares blobSha base head compare.files
  manifest : IsManifest pull.sha256Hex sub base pull.state.files
  mirrors : Pull.Mirrors pull.sha256Hex pull.copies pull.state
  fresh : pull.FreshIds
  noOverride : ∀ rel, Removes sub base head rel → pull.state.files.lookup rel = none →
    proposalOverrideApplies pull.sha256Hex pull.mergedToConsume rel (tree.lookup rel) = false

variable (sub base head) in
/-- Both readings list the same edits, but for removals of unlisted files, leave
out the same changed files, and a pull ends the same with either. -/
def ReadingsAgree (conflictFiles : AList fun _ : Nat => ConflictFiles) : Prop :=
  ∃ compared skipped extracted left,
    upstreamEdits pull.sha256Hex forge sub pull.state.files compare = .ok (compared, skipped) ∧
      upstreamEditsFromTarball pull.sha256Hex forge sub pull.state.files =
        .ok (extracted, left) ∧
      Pull.Trims pull.state.files compared extracted ∧
      (∀ rel size, head.lookup (toRepoRelative rel sub) ≠ base.lookup (toRepoRelative rel sub) →
        ((rel, size) ∈ skipped ↔ (rel, size) ∈ left)) ∧
      Pull.SameEnd (pull.pulled tree conflictFiles compared)
        (pull.pulled tree conflictFiles extracted)

variable {pull forge compare tree}

/-- The two ways of reading upstream agree. -/
theorem upstream_readings_agree
    (readable : Readable sub base head blobSha pull forge compare tree)
    (conflictFiles : AList fun _ : Nat => ConflictFiles) :
    ReadingsAgree sub base head pull forge compare tree conflictFiles := by
  obtain ⟨extracted, left, fromTarball, once, areEdits, areSkipped⟩ :=
    upstreamEdits_tarball readable.injective readable.serves readable.manifest
  by_cases long : (compare.truncated || maxCompareFiles <
      (compare.files.filter (touchesDomain sub)).length) = true
  · -- A compare cut off, or too long, is read from the tarball.
    have fallsBack : upstreamEdits pull.sha256Hex forge sub pull.state.files compare =
        .ok (extracted, left) := by
      unfold upstreamEdits
      dsimp only
      rw [if_pos long, fromTarball]
    have whole : Pull.Trims pull.state.files extracted extracted := by
      refine ⟨once, once, ?_⟩
      rintro ⟨rel, content⟩
      refine ⟨fun member => ⟨member, ?_⟩, And.left⟩
      rintro rfl
      obtain ⟨bytes, impossible, -⟩ | ⟨-, -, listed⟩ := (areEdits rel none).mp member
      · cases impossible
      · exact listed
    refine ⟨extracted, left, extracted, left, fallsBack, fromTarball, whole,
      fun _ _ _ => Iff.rfl, ?_⟩
    exact ⟨fun _ => rfl, fun _ => rfl, fun _ => rfl, fun _ => rfl, rfl,
      fun conflict member => ⟨conflict, member, rfl, rfl, rfl, rfl, rfl⟩,
      fun conflict member => ⟨conflict, member, rfl, rfl, rfl, rfl, rfl⟩⟩
  · have short := Bool.eq_false_of_not_eq_true long
    have whole : compare.truncated = false := (Bool.or_eq_false_iff.mp short).1
    have compares := readable.compares whole
    have trims : Pull.Trims pull.state.files
        (compare.files.flatMap fun change => (editsOf sub head change).1) extracted := by
      refine ⟨compareEdits_distinct compares.once, once, ?_⟩
      rintro ⟨rel, content⟩
      rw [areEdits, mem_compareEdits compares]
      constructor
      · rintro (⟨bytes, rfl, writes⟩ | ⟨rfl, removes, listed⟩)
        · exact ⟨.inl ⟨bytes, rfl, writes⟩, fun impossible => by cases impossible⟩
        · exact ⟨.inr ⟨rfl, removes⟩, fun _ => listed⟩
      · rintro ⟨⟨bytes, rfl, writes⟩ | ⟨rfl, removes⟩, listed⟩
        · exact .inl ⟨bytes, rfl, writes⟩
        · exact .inr ⟨rfl, removes, listed rfl⟩
    refine ⟨_, _, extracted, left,
      upstreamEdits_compare sub pull.sha256Hex readable.serves compares pull.state.files short,
      fromTarball, trims, ?_, ?_⟩
    · intro rel size changed
      rw [mem_compareSkipped compares, areSkipped]
      exact ⟨And.left, fun tooLarge => ⟨tooLarge, changed⟩⟩
    · apply Pull.pulled_trimmed conflictFiles trims readable.mirrors readable.fresh
      intro rel unlisted member
      obtain ⟨bytes, impossible, -⟩ | ⟨-, removes⟩ := (mem_compareEdits compares).mp member
      · cases impossible
      · exact readable.noOverride rel removes unlisted

end Readings

section Samples

open Detector (file spelledOut)

/-- A tree of one file. -/
def lone (name content : String) : Tree :=
  AList.singleton name.toList (toUtf8 content.toList)

theorem lookup_lone {name content : String} {path : Text} {bytes : Bytes} :
    (lone name content).lookup path = some bytes ↔
      path = name.toList ∧ bytes = toUtf8 content.toList := by
  change List.dlookup path
    ([⟨name.toList, toUtf8 content.toList⟩] : List (Σ _ : Path, Bytes)) = some bytes ↔ _
  by_cases same : path = name.toList
  · subst same
    simp [eq_comm]
  · simp [same, List.dlookup_cons_ne]

theorem lookup_lone_ne_none {name : String} (content : String) {path : Text} :
    (lone name content).lookup path ≠ none ↔ path = name.toList := by
  rw [Option.ne_none_iff_exists']
  simp [lookup_lone]

/-- A forge that serves a head of one file. -/
def loneForge (name content : String) : UpstreamForge where
  blob sha := if sha = content then .ok (toUtf8 content.toList) else .error .offline
  tarball := .ok [⟨"notes-main/".toList ++ name.toList, true, toUtf8 content.toList⟩]

theorem loneForge_archives (name content : String) :
    ∃ top entries, (loneForge name content).tarball = .ok entries ∧
      Archives top (lone name content) entries := by
  exact ⟨"notes-main".toList, _, rfl, by decide, .refl _⟩

/-- A file renamed within the domain's folder. -/
def renamedNote : CompareResult :=
  ⟨[⟨"docs/b.md".toList, .renamed "docs/a.md".toList, some "x"⟩], false⟩

theorem upstream_readings_agree_renamed :
    ReadingsAgree (some "docs".toList) (lone "docs/a.md" "x") (lone "docs/b.md" "x")
      (Pull.samplePull [file "a.md" "x"] []) (loneForge "docs/b.md" "x") renamedNote
      (lone "a.md" "mine") ∅ := by
  have apart : "docs/b.md".toList ≠ "docs/a.md".toList := by decide
  have gone : ∀ path : Text, (lone "docs/b.md" "x").lookup path = none ↔
      path ≠ "docs/b.md".toList := fun path => by
    rw [Ne, ← lookup_lone_ne_none "x", not_not]
  suffices readable : Readable (some "docs".toList) (lone "docs/a.md" "x") (lone "docs/b.md" "x")
      (fun _ => "x") (Pull.samplePull [file "a.md" "x"] []) (loneForge "docs/b.md" "x") renamedNote
      (lone "a.md" "mine") from upstream_readings_agree readable ∅
  refine ⟨Detector.spelledOut_injective, ⟨?_, loneForge_archives _ _, ?_⟩, fun _ => ?_,
    ?_, Pull.samplePull_mirrors _ _, Pull.samplePull_fresh _ _, fun _ _ _ => ?_⟩
  · intro path content held
    rw [(lookup_lone.mp held).2]
    rfl
  · intro path there
    rw [(lookup_lone_ne_none _).mp there]
    exact ⟨by decide, by decide⟩
  · have oldPath : ∀ change ∈ renamedNote.files, change.oldPath = some "docs/a.md".toList := by
      decide
    have newPath : ∀ change ∈ renamedNote.files, change.newPath = some "docs/b.md".toList := by
      decide
    refine ⟨by decide, fun path => ?_, fun path => ?_, ?_⟩
    · rw [lookup_lone_ne_none, gone]
      constructor
      · rintro ⟨change, member, isOld⟩
        rw [oldPath change member] at isOld
        cases isOld
        exact ⟨rfl, apart.symm⟩
      · rintro ⟨rfl, -⟩
        exact ⟨_, List.mem_singleton_self _, rfl⟩
    · rw [lookup_lone_ne_none]
      constructor
      · rintro ⟨change, member, isNew⟩
        rw [newPath change member] at isNew
        cases isNew
        exact ⟨rfl, by decide⟩
      · rintro ⟨rfl, -⟩
        exact ⟨_, List.mem_singleton_self _, rfl⟩
    · intro change member path content _ _
      obtain rfl := List.mem_singleton.mp member
      rfl
  · intro rel stamp
    have isCopy : (Pull.samplePull [file "a.md" "x"] []).copies = lone "a.md" "x" := rfl
    have inFolder : "docs/a.md".toList = toRepoRelative "a.md".toList (some "docs".toList) := rfl
    rw [(Pull.samplePull_mirrors [file "a.md" "x"] []).files, isCopy, Option.map_eq_some_iff]
    simp only [lookup_lone, inFolder]
    constructor
    · rintro ⟨bytes, ⟨rfl, rfl⟩, rfl⟩
      exact ⟨by decide, _, ⟨rfl, rfl⟩, by unfold Detector.Small; decide, rfl⟩
    · rintro ⟨-, bytes, ⟨same, rfl⟩, -, rfl⟩
      exact ⟨_, ⟨toRepoRelative_injective same, rfl⟩, rfl⟩
  · unfold proposalOverrideApplies
    split <;> rfl

/-- A share of one file, merged and waiting to be consumed. -/
def mergedShare : Proposal where
  number := 1
  url := ""
  branch := "share-1"
  title := ""
  status := .merged
  files := [⟨"a.bin".toList, .added, some "mine", some "b1", some 4⟩]
  headCommit := none
  pendingHeadCommit := none
  baseCommit := none
  authorLogin := none

/-- A file too large to share. -/
def largeFile : Bytes := List.replicate (maxSharedFileBytes + 1) 0

/-- A name with a colon anywhere in the repository stops the reading of the
tarball, and a file too large for the manifest whose removal a merged share
overrides is removed by the reading of the compare only. -/
theorem upstream_readings_differ :
    (∃ (forge : UpstreamForge) (tree : Tree) (error : RemoteError),
      (∃ top entries, forge.tarball = .ok entries ∧ Archives top tree entries) ∧
        Compares (fun _ => "x") tree tree [] ∧
        upstreamEdits spelledOut forge (some "docs".toList) ∅ ⟨[], false⟩ = .ok ([], []) ∧
        upstreamEditsFromTarball spelledOut forge (some "docs".toList) ∅ = .error error) ∧
      ∃ (base head tree : Tree) (forge : UpstreamForge) (compare : CompareResult)
        (pull : Pull PlainValue) (compared extracted : List UpstreamEdit),
        Serves forge (fun _ => "x") head ∧ Compares (fun _ => "x") base head compare.files ∧
          IsManifest pull.sha256Hex none base pull.state.files ∧
          upstreamEdits pull.sha256Hex forge none pull.state.files compare = .ok (compared, []) ∧
          upstreamEditsFromTarball pull.sha256Hex forge none pull.state.files =
            .ok (extracted, []) ∧
          ∃ path, (pull.pulled tree ∅ compared).run.tree.lookup path ≠
            (pull.pulled tree ∅ extracted).run.tree.lookup path := by
  constructor
  · refine ⟨loneForge "a:b" "x", lone "a:b" "x", escapesRoot "notes-main/a:b".toList,
      loneForge_archives _ _, ⟨by decide, fun path => ?_, fun path => ?_, ?_⟩, rfl, rfl⟩
    · constructor
      · rintro ⟨_, gone, _⟩
        cases gone
      · intro same
        exact absurd same.2 same.1
    · constructor
      · rintro ⟨_, found, _⟩
        cases found
      · intro same
        exact absurd rfl same.2
    · intro change found
      cases found
  · have inBase : ∀ path : Text,
        (AList.singleton "a.bin".toList largeFile : Tree).lookup path ≠ none ↔
          path = "a.bin".toList := by
      intro path
      rw [Ne, AList.lookup_eq_none, not_not, AList.mem_keys, AList.keys_singleton,
        List.mem_singleton]
    refine ⟨AList.singleton "a.bin".toList largeFile, ∅, lone "a.bin" "mine",
      ⟨fun _ => .error .offline, .ok []⟩, ⟨[⟨"a.bin".toList, .removed, none⟩], false⟩,
      { Pull.samplePull [] [] with mergedToConsume := [mergedShare] }, [⟨"a.bin".toList, none⟩],
      [], ?_, ?_, ?_, rfl, rfl, "a.bin".toList, ?_⟩
    · refine ⟨?_, ⟨"notes-main".toList, [], rfl, by decide, .refl _⟩, ?_⟩
      · intro path content there
        cases there
      · intro path there
        exact absurd (AList.lookup_empty path) there
    · refine ⟨by decide, fun path => ?_, fun path => ?_, ?_⟩
      · rw [inBase, AList.lookup_empty]
        simp [UpstreamChange.oldPath, eq_comm]
      · simp [UpstreamChange.newPath]
      · simp [UpstreamChange.newPath]
    · intro rel stamp
      constructor
      · intro listed
        cases listed
      rintro ⟨-, content, held, small, -⟩
      obtain rfl : rel = "a.bin".toList := by
        refine (inBase rel).mp ?_
        rw [toRepoRelative] at held
        rw [held]
        exact Option.some_ne_none content
      have isLarge : content = largeFile := by
        rw [toRepoRelative] at held
        change List.dlookup "a.bin".toList ([⟨"a.bin".toList, largeFile⟩] :
          List (Σ _ : Path, Bytes)) = some content at held
        rw [List.dlookup_cons_eq] at held
        exact (Option.some.inj held).symm
      rw [isLarge, Detector.Small, largeFile, List.length_replicate] at small
      exact absurd small (Nat.not_succ_le_self _)
    · decide

end Samples

end Crystalline.Remote
