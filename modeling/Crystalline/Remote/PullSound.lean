import Mathlib.Data.List.Dedup
import Crystalline.Remote.DetectionSound
import Crystalline.Remote.PullRun

/-!
# A pull loses no local work

After the merge loop and the base advance the base copies are the head's files,
an untouched path holds what upstream holds, a path upstream left alone is as it
was, and a path both sides changed holds a clean merge or its local version
beside a recorded conflict.  What detection then reports was local work before.
-/

namespace Crystalline.Remote

open Text

namespace Pull

variable {Value : Type} [DecidableEq Value] {pull : Pull Value}

section Advance

/-- The base records a content of a path. -/
structure BaseAt (sha256Hex : Bytes → Sha) (base : Tree × OriginState) (path : Path)
    (content : Option Bytes) : Prop where
  copy : base.1.lookup path = content
  file : base.2.files.lookup path = content.map (stamp sha256Hex)
  digest : base.2.lfDigests.lookup path = content.bind (lfDigest sha256Hex path)

/-- Two bases record the same of a path. -/
structure SameAt (before after : Tree × OriginState) (path : Path) : Prop where
  copy : after.1.lookup path = before.1.lookup path
  file : after.2.files.lookup path = before.2.files.lookup path
  digest : after.2.lfDigests.lookup path = before.2.lfDigests.lookup path

variable (pull) in
omit [DecidableEq Value] in
theorem advanceStep_here (base : Tree × OriginState) (edit : UpstreamEdit) :
    BaseAt pull.sha256Hex (pull.advanceStep base edit) edit.path edit.content := by
  obtain ⟨path, content⟩ := edit
  cases content with
  | none =>
      exact ⟨AList.lookup_erase _ _, AList.lookup_erase _ _, AList.lookup_erase _ _⟩
  | some content =>
      refine ⟨AList.lookup_insert _, AList.lookup_insert _, ?_⟩
      cases isDigest : lfDigest pull.sha256Hex path content with
      | none => simp [advanceStep, OriginState.recordBase, isDigest]
      | some digest => simp [advanceStep, OriginState.recordBase, isDigest]

variable (pull) in
omit [DecidableEq Value] in
theorem advanceStep_elsewhere (base : Tree × OriginState) {edit : UpstreamEdit} {path : Path}
    (other : path ≠ edit.path) : SameAt base (pull.advanceStep base edit) path := by
  obtain ⟨name, content⟩ := edit
  cases content with
  | none =>
      exact ⟨AList.lookup_erase_ne other, AList.lookup_erase_ne other,
        AList.lookup_erase_ne other⟩
  | some content =>
      refine ⟨AList.lookup_insert_ne other, AList.lookup_insert_ne other, ?_⟩
      cases isDigest : lfDigest pull.sha256Hex name content with
      | none =>
          simp only [advanceStep, OriginState.recordBase, isDigest]
          exact AList.lookup_erase_ne other
      | some digest =>
          simp only [advanceStep, OriginState.recordBase, isDigest]
          exact AList.lookup_insert_ne other

variable (pull) in
omit [DecidableEq Value] in
theorem advance_elsewhere {edits : List UpstreamEdit} {path : Path}
    (unnamed : path ∉ edits.map UpstreamEdit.path) (base : Tree × OriginState) :
    SameAt base (edits.foldl pull.advanceStep base) path := by
  induction edits generalizing base with
  | nil => exact ⟨rfl, rfl, rfl⟩
  | cons edit edits induction =>
      rw [List.map_cons, List.mem_cons, not_or] at unnamed
      have step := advanceStep_elsewhere pull base unnamed.1
      have rest := induction unnamed.2 (pull.advanceStep base edit)
      exact ⟨rest.copy.trans step.copy, rest.file.trans step.file, rest.digest.trans step.digest⟩

variable (pull) in
omit [DecidableEq Value] in
theorem advance_here {edits : List UpstreamEdit}
    (distinct : (edits.map UpstreamEdit.path).Nodup) {edit : UpstreamEdit}
    (member : edit ∈ edits) (base : Tree × OriginState) :
    BaseAt pull.sha256Hex (edits.foldl pull.advanceStep base) edit.path edit.content := by
  induction edits generalizing base with
  | nil => cases member
  | cons first edits induction =>
      rw [List.map_cons, List.nodup_cons] at distinct
      rcases List.mem_cons.mp member with rfl | later
      · have step := advanceStep_here pull base edit
        have rest := advance_elsewhere pull distinct.1 (pull.advanceStep base edit)
        exact ⟨rest.copy.trans step.copy, rest.file.trans step.file,
          rest.digest.trans step.digest⟩
      · exact induction distinct.2 later _

end Advance

section Start

variable (pull) (tree head : Tree)

/-- The records describe the base copies: every stamp, and every LF digest there
is. -/
structure Mirrors (sha256Hex : Bytes → Sha) (copies : Tree) (state : OriginState) : Prop where
  files : ∀ path, state.files.lookup path = (copies.lookup path).map (stamp sha256Hex)
  digests : ∀ path digest, state.lfDigests.lookup path = some digest →
    (copies.lookup path).bind (lfDigest sha256Hex path) = some digest

omit [DecidableEq Value] in
theorem Mirrors.advanceStep {pull : Pull Value} {base : Tree × OriginState}
    (mirrors : Mirrors pull.sha256Hex base.1 base.2) (edit : UpstreamEdit) :
    Mirrors pull.sha256Hex (pull.advanceStep base edit).1 (pull.advanceStep base edit).2 where
  files path := by
    by_cases here : path = edit.path
    · subst here
      have moved := advanceStep_here pull base edit
      rw [moved.file, moved.copy]
    · have kept := advanceStep_elsewhere pull base here
      rw [kept.file, kept.copy]
      exact mirrors.files path
  digests path digest isDigest := by
    by_cases here : path = edit.path
    · subst here
      have moved := advanceStep_here pull base edit
      rw [moved.copy, ← moved.digest]
      exact isDigest
    · have kept := advanceStep_elsewhere pull base here
      rw [kept.digest] at isDigest
      rw [kept.copy]
      exact mirrors.digests path digest isDigest

/-- The edits are the difference between the base copies and the head. -/
structure Difference (copies : Tree) (edits : List UpstreamEdit) : Prop where
  distinct : (edits.map UpstreamEdit.path).Nodup
  edits : ∀ path content, ⟨path, content⟩ ∈ edits ↔
    head.lookup path = content ∧ content ≠ copies.lookup path

/-- The difference of two trees, path by path. -/
def differenceOf (head copies : Tree) : List UpstreamEdit :=
  ((head.keys ++ copies.keys).dedup.filter fun path =>
    head.lookup path ≠ copies.lookup path).map fun path => ⟨path, head.lookup path⟩

theorem differenceOf_isDifference (head copies : Tree) :
    Difference head copies (differenceOf head copies) where
  distinct := by
    have paths : UpstreamEdit.path ∘ (fun path => (⟨path, head.lookup path⟩ : UpstreamEdit)) =
        id := rfl
    rw [differenceOf, List.map_map, paths, List.map_id]
    exact (List.nodup_dedup _).filter _
  edits path content := by
    rw [differenceOf, List.mem_map]
    constructor
    · rintro ⟨name, member, same⟩
      cases same
      exact ⟨rfl, of_decide_eq_true (List.mem_filter.mp member).2⟩
    · rintro ⟨rfl, changed⟩
      refine ⟨path, List.mem_filter.mpr ⟨?_, decide_eq_true changed⟩, rfl⟩
      rw [List.mem_dedup, List.mem_append, ← AList.mem_keys, ← AList.mem_keys]
      by_contra absent
      rw [not_or, ← AList.lookup_eq_none, ← AList.lookup_eq_none] at absent
      exact changed (absent.1.trans absent.2.symm)

/-- A path whose file is the base's, byte for byte or as its LF form. -/
def IsBase (path : Path) : Prop :=
  tree.lookup path = pull.copies.lookup path ∨
    ∃ content text, pull.copies.lookup path = some content ∧ isMarkdown path = true ∧
      fromUtf8 content = some text ∧ tree.lookup path = some (toUtf8 (toLf text))

/-- A path whose file the pull takes for the untouched base. -/
def StandsAsBase (path : Path) : Prop :=
  tree.lookup path = pull.copies.lookup path ∨
    ∃ local_, tree.lookup path = some local_ ∧ pull.localIsBaseAsLf path local_ = true

end Start

section Fates

variable {tree head : Tree} {edits : List UpstreamEdit}

omit [DecidableEq Value] in
theorem baseOf_eq (mirrors : Mirrors pull.sha256Hex pull.copies pull.state) (path : Path) :
    pull.baseOf path = pull.copies.lookup path := by
  unfold baseOf
  rw [mirrors.files]
  cases pull.copies.lookup path <;> rfl

variable {path : Path}

omit [DecidableEq Value] in
theorem IsBase.standsAsBase (mirrors : Mirrors pull.sha256Hex pull.copies pull.state)
    (isBase : pull.IsBase tree path) : pull.StandsAsBase tree path := by
  obtain same | ⟨content, text, isCopy, markdown, isText, isLf⟩ := isBase
  · exact .inl same
  · by_cases unconverted : toUtf8 (toLf text) = content
    · exact .inl (by rw [isLf, isCopy, unconverted])
    · refine .inr ⟨_, isLf, ?_⟩
      have recorded : pull.state.files.lookup path = some (stamp pull.sha256Hex content) := by
        rw [mirrors.files, isCopy]
        rfl
      unfold localIsBaseAsLf
      rw [recorded]
      cases isDigest : pull.state.lfDigests.lookup path with
      | some digest =>
          have known := mirrors.digests path digest isDigest
          rw [isCopy, Option.bind_some, lfDigest, if_pos markdown, isText, Option.bind_some,
            if_pos unconverted] at known
          cases known
          simp [sameAsBase]
      | none =>
          simp [matchesBaseAsLf, markdown, isCopy, stamp, isText, toLf_idem]

omit [DecidableEq Value] in
/-- The base an untouched path is merged against is the file itself. -/
theorem mergeBase_of_standsAsBase (mirrors : Mirrors pull.sha256Hex pull.copies pull.state)
    (stands : pull.StandsAsBase tree path) {upstream : Option Bytes}
    (changed : upstream ≠ pull.copies.lookup path) :
    pull.mergeBase path (tree.lookup path) upstream = tree.lookup path := by
  unfold mergeBase
  rw [baseOf_eq mirrors]
  cases isCopy : pull.copies.lookup path with
  | none =>
      cases isLocal : tree.lookup path with
      | none => rfl
      | some local_ =>
          obtain same | ⟨other, isOther, asLf⟩ := stands
          · rw [isCopy, isLocal] at same
            cases same
          · have missing := mirrors.files path
            rw [isCopy] at missing
            simp [localIsBaseAsLf, missing] at asLf
  | some content =>
      cases isLocal : tree.lookup path with
      | none =>
          obtain same | ⟨other, isOther, asLf⟩ := stands
          · rw [isCopy, isLocal] at same
            cases same
          · rw [isLocal] at isOther
            cases isOther
      | some local_ =>
          dsimp only
          rw [isCopy] at changed
          by_cases same : local_ = content
          · simp [same]
          · obtain agree | ⟨other, isOther, asLf⟩ := stands
            · rw [isCopy, isLocal] at agree
              exact absurd (Option.some.inj agree) same
            · rw [isLocal] at isOther
              cases isOther
              rw [if_pos (by simp [same, changed, asLf])]

omit [DecidableEq Value] in
theorem mergeBase_of_changed (mirrors : Mirrors pull.sha256Hex pull.copies pull.state)
    (changed : ¬ pull.StandsAsBase tree path) (upstream : Option Bytes) :
    pull.mergeBase path (tree.lookup path) upstream = pull.copies.lookup path := by
  unfold mergeBase
  rw [baseOf_eq mirrors]
  cases isCopy : pull.copies.lookup path with
  | none => cases tree.lookup path <;> rfl
  | some content =>
      cases isLocal : tree.lookup path with
      | none => rfl
      | some local_ =>
          have notLf : pull.localIsBaseAsLf path local_ ≠ true :=
            fun asLf => changed (.inr ⟨local_, isLocal, asLf⟩)
          dsimp only
          rw [if_neg (by simp [notLf])]

/-- An untouched path takes upstream, or holds it already. -/
theorem fate_of_standsAsBase (mirrors : Mirrors pull.sha256Hex pull.copies pull.state)
    (edit : UpstreamEdit) (shared : isIndexPath edit.path = false)
    (noOverride : proposalOverrideApplies pull.sha256Hex pull.mergedToConsume edit.path
      (tree.lookup edit.path) = false)
    (stands : pull.StandsAsBase tree edit.path)
    (changed : edit.content ≠ pull.copies.lookup edit.path) :
    (pull.fate (tree.lookup edit.path) edit).content edit.path (tree.lookup edit.path) =
        edit.content.map (asPulled edit.path) ∨
      (tree.lookup edit.path = edit.content ∧
        (pull.fate (tree.lookup edit.path) edit).content edit.path (tree.lookup edit.path) =
          tree.lookup edit.path) := by
  have against := mergeBase_of_standsAsBase mirrors stands changed
  have unsettled : pull.settled edit.path (tree.lookup edit.path) edit.content = none := by
    unfold settled
    rw [against, Merger.settledManifest_of_same, ite_self]
  unfold fate
  rw [shared, noOverride, against, unsettled]
  simp only [Bool.false_eq_true, if_false, Option.none_or]
  by_cases agree : edit.content = tree.lookup edit.path
  · rw [agree, Merger.mergeFile_of_unchanged]
    exact .inr ⟨rfl, rfl⟩
  · rw [Merger.mergeFile_of_same _ agree]
    cases edit.content with
    | none => exact .inl rfl
    | some content => exact .inl rfl

variable (pull) in
/-- The local side of a merge: the file, or the MANIFEST with its claim settled. -/
def localSide (path : Path) (local_ base upstream : Option Bytes) : Option Bytes :=
  (if path = manifestFileName then pull.merger.settledManifest base local_ upstream
    else none).or local_

/-- What a merge's answer makes of a path. -/
def fateOf (base localSide_ settled_ upstream : Option Bytes) : FileMerge → Fate
  | .apply content => .written content (isThreeWayMerge base localSide_ upstream)
  | .delete => .removed
  | .converged => settled_.elim .kept fun content => .written content false
  | .conflict kind => .conflict kind

/-- The fate of a shared path is its merge's, against the recorded base. -/
theorem fate_eq_merged {edit : UpstreamEdit} (shared : isIndexPath edit.path = false)
    (noOverride : proposalOverrideApplies pull.sha256Hex pull.mergedToConsume edit.path
      (tree.lookup edit.path) = false)
    (against : pull.mergeBase edit.path (tree.lookup edit.path) edit.content =
      pull.copies.lookup edit.path) :
    pull.fate (tree.lookup edit.path) edit =
      fateOf (pull.copies.lookup edit.path)
        (pull.localSide edit.path (tree.lookup edit.path) (pull.copies.lookup edit.path)
          edit.content)
        (pull.settled edit.path (tree.lookup edit.path) edit.content) edit.content
        (pull.merger.mergeFile (pull.copies.lookup edit.path)
          (pull.localSide edit.path (tree.lookup edit.path) (pull.copies.lookup edit.path)
            edit.content) edit.content) := by
  have isSide : (pull.settled edit.path (tree.lookup edit.path) edit.content).or
      (tree.lookup edit.path) = pull.localSide edit.path (tree.lookup edit.path)
        (pull.copies.lookup edit.path) edit.content := by
    rw [localSide, settled, against]
  unfold fate
  rw [shared, noOverride, against]
  dsimp only
  rw [isSide, if_neg Bool.false_ne_true, if_neg Bool.false_ne_true]
  cases pull.merger.mergeFile (pull.copies.lookup edit.path)
    (pull.localSide edit.path (tree.lookup edit.path) (pull.copies.lookup edit.path)
      edit.content) edit.content with
  | apply content => rfl
  | delete => rfl
  | converged => cases pull.settled edit.path (tree.lookup edit.path) edit.content <;> rfl
  | conflict kind => rfl

/-- What a path both sides changed ends as: a clean merge, what both sides agree
on, or its local version and a conflict. -/
theorem fate_of_changed (mirrors : Mirrors pull.sha256Hex pull.copies pull.state)
    (edit : UpstreamEdit) (shared : isIndexPath edit.path = false)
    (noOverride : proposalOverrideApplies pull.sha256Hex pull.mergedToConsume edit.path
      (tree.lookup edit.path) = false)
    (changed : ¬ pull.StandsAsBase tree edit.path)
    (upstreamChanged : edit.content ≠ pull.copies.lookup edit.path) :
    (∃ content, pull.merger.mergeFile (pull.copies.lookup edit.path)
        (pull.localSide edit.path (tree.lookup edit.path) (pull.copies.lookup edit.path)
          edit.content) edit.content = .apply content ∧
        (pull.fate (tree.lookup edit.path) edit).content edit.path (tree.lookup edit.path) =
          some (asPulled edit.path content)) ∨
      (pull.localSide edit.path (tree.lookup edit.path) (pull.copies.lookup edit.path)
          edit.content = edit.content ∧
        ((pull.fate (tree.lookup edit.path) edit).content edit.path (tree.lookup edit.path) =
            edit.content.map (asPulled edit.path) ∨
          (tree.lookup edit.path = edit.content ∧
            (pull.fate (tree.lookup edit.path) edit).content edit.path
              (tree.lookup edit.path) = tree.lookup edit.path))) ∨
      ∃ kind, pull.merger.mergeFile (pull.copies.lookup edit.path)
          (pull.localSide edit.path (tree.lookup edit.path) (pull.copies.lookup edit.path)
            edit.content) edit.content = .conflict kind ∧
        pull.fate (tree.lookup edit.path) edit = .conflict kind := by
  have against := mergeBase_of_changed mirrors changed edit.content
  have different : tree.lookup edit.path ≠ pull.copies.lookup edit.path :=
    fun same => changed (.inl same)
  have isFate := fate_eq_merged shared noOverride against
  have isSide : pull.localSide edit.path (tree.lookup edit.path) (pull.copies.lookup edit.path)
      edit.content = (pull.settled edit.path (tree.lookup edit.path) edit.content).or
        (tree.lookup edit.path) := by
    rw [localSide, settled, against]
  by_cases sameSide : pull.localSide edit.path (tree.lookup edit.path)
      (pull.copies.lookup edit.path) edit.content = pull.copies.lookup edit.path
  · -- The settled MANIFEST is the base's: the team's copy is taken.
    rw [sameSide, Merger.mergeFile_of_same _ upstreamChanged] at isFate
    rw [sameSide, Merger.mergeFile_of_same _ upstreamChanged]
    cases isContent : edit.content with
    | some content =>
        refine .inl ⟨content, rfl, ?_⟩
        rw [isFate, isContent]
        rfl
    | none =>
        rw [localSide, isContent, Merger.settledManifest_of_removed, ite_self,
          Option.none_or] at sameSide
        exact absurd sameSide different
  · obtain ⟨agree, merges⟩ | ⟨-, ⟨content, merges⟩ | ⟨kind, merges⟩⟩ :=
      pull.merger.mergeFile_of_changed sameSide upstreamChanged
    · refine .inr (.inl ⟨agree, ?_⟩)
      rw [merges] at isFate
      rw [isFate]
      rw [isSide] at agree
      cases isSettled : pull.settled edit.path (tree.lookup edit.path) edit.content with
      | none =>
          rw [isSettled, Option.none_or] at agree
          exact .inr ⟨agree, rfl⟩
      | some content =>
          rw [isSettled, Option.some_or] at agree
          rw [← agree]
          exact .inl rfl
    · refine .inl ⟨content, merges, ?_⟩
      rw [isFate, merges]
      rfl
    · refine .inr (.inr ⟨kind, merges, ?_⟩)
      rw [isFate, merges]
      rfl

end Fates

section Whole

variable (pull) (tree head : Tree) (conflictFiles : AList fun _ : Nat => ConflictFiles)
  (edits : List UpstreamEdit)

/-- Where a pull starts: the records describe the base copies, the edits are the
difference to the head, no merged share overrides a path, ids are fresh. -/
structure Starts : Prop where
  mirrors : Mirrors pull.sha256Hex pull.copies pull.state
  difference : Difference head pull.copies edits
  noOverride : ∀ edit ∈ edits, proposalOverrideApplies pull.sha256Hex pull.mergedToConsume
    edit.path (tree.lookup edit.path) = false
  fresh : pull.FreshIds

variable {pull tree head conflictFiles edits}

theorem removalsFirst_distinct (distinct : (edits.map UpstreamEdit.path).Nodup) :
    ((removalsFirst edits).map UpstreamEdit.path).Nodup :=
  ((removalsFirst_perm edits).map UpstreamEdit.path).nodup_iff.mpr distinct

theorem mem_removalsFirst {edit : UpstreamEdit} :
    edit ∈ removalsFirst edits ↔ edit ∈ edits :=
  (removalsFirst_perm edits).mem_iff

variable {path : Path}

theorem Difference.named {copies : Tree} (difference : Difference head copies edits) :
    path ∈ (removalsFirst edits).map UpstreamEdit.path ↔
      head.lookup path ≠ copies.lookup path := by
  rw [List.mem_map]
  constructor
  · rintro ⟨⟨name, content⟩, member, rfl⟩
    obtain ⟨isHead, changed⟩ := (difference.edits name content).mp (mem_removalsFirst.mp member)
    rw [isHead]
    exact changed
  · intro changed
    exact ⟨⟨path, head.lookup path⟩,
      mem_removalsFirst.mpr ((difference.edits path _).mpr ⟨rfl, changed⟩), rfl⟩

variable (conflictFiles) in
theorem pulled_here (starts : pull.Starts tree head edits)
    (changed : head.lookup path ≠ pull.copies.lookup path) :
    (pull.pulled tree conflictFiles edits).run.tree.lookup path =
      (pull.fate (tree.lookup path) ⟨path, head.lookup path⟩).content path
        (tree.lookup path) := by
  have member : (⟨path, head.lookup path⟩ : UpstreamEdit) ∈ removalsFirst edits :=
    mem_removalsFirst.mpr ((starts.difference.edits path _).mpr ⟨rfl, changed⟩)
  exact loop_here _ (removalsFirst_distinct starts.difference.distinct) member _

variable (conflictFiles) in
theorem pulled_elsewhere (starts : pull.Starts tree head edits)
    (same : head.lookup path = pull.copies.lookup path) :
    (pull.pulled tree conflictFiles edits).run.tree.lookup path = tree.lookup path := by
  refine loop_elsewhere ?_ _
  rw [starts.difference.named]
  exact fun changed => changed same

variable (conflictFiles) in
/-- The base records the head, and describes it. -/
theorem pulled_base (starts : pull.Starts tree head edits) (path : Path) :
    (pull.pulled tree conflictFiles edits).copies.lookup path = head.lookup path ∧
      (pull.pulled tree conflictFiles edits).state.files.lookup path =
        (head.lookup path).map (stamp pull.sha256Hex) ∧
      (head.lookup path ≠ pull.copies.lookup path →
        (pull.pulled tree conflictFiles edits).state.lfDigests.lookup path =
          (head.lookup path).bind (lfDigest pull.sha256Hex path)) ∧
      (head.lookup path = pull.copies.lookup path →
        (pull.pulled tree conflictFiles edits).state.lfDigests.lookup path =
          pull.state.lfDigests.lookup path) := by
  by_cases same : head.lookup path = pull.copies.lookup path
  · have unnamed : path ∉ (removalsFirst edits).map UpstreamEdit.path := by
      rw [starts.difference.named]
      exact fun changed => changed same
    have kept := advance_elsewhere pull unnamed
      (pull.copies, { pull.state with
        conflicts := (pull.mergeLoop tree conflictFiles edits).conflicts })
    refine ⟨kept.copy.trans same.symm, ?_, fun changed => absurd same changed,
      fun _ => kept.digest⟩
    rw [same, ← starts.mirrors.files]
    exact kept.file
  · have member : (⟨path, head.lookup path⟩ : UpstreamEdit) ∈ removalsFirst edits :=
      mem_removalsFirst.mpr ((starts.difference.edits path _).mpr ⟨rfl, same⟩)
    have moved := advance_here pull (removalsFirst_distinct starts.difference.distinct) member
      (pull.copies, { pull.state with
        conflicts := (pull.mergeLoop tree conflictFiles edits).conflicts })
    exact ⟨moved.copy, moved.file, fun _ => moved.digest, fun agree => absurd agree same⟩

theorem pulled_conflicts (tree : Tree) (conflictFiles : AList fun _ : Nat => ConflictFiles)
    (edits : List UpstreamEdit) :
    (pull.pulled tree conflictFiles edits).state.conflicts =
      (pull.pulled tree conflictFiles edits).run.conflicts := by
  have kept : ∀ (edits : List UpstreamEdit) (base : Tree × OriginState),
      (edits.foldl pull.advanceStep base).2.conflicts = base.2.conflicts := by
    intro edits
    induction edits with
    | nil => exact fun _ => rfl
    | cons edit edits induction =>
        intro base
        rw [List.foldl_cons, induction]
        obtain ⟨path, content⟩ := edit
        cases content <;> rfl
  exact kept _ _

theorem pulled_mirrors (starts : pull.Starts tree head edits) :
    Mirrors pull.sha256Hex (pull.pulled tree conflictFiles edits).copies
      (pull.pulled tree conflictFiles edits).state where
  files path := by
    obtain ⟨copy, file, -⟩ := pulled_base conflictFiles starts path
    rw [copy, file]
  digests path digest isDigest := by
    obtain ⟨copy, -, moved, kept⟩ := pulled_base conflictFiles starts path
    rw [copy]
    by_cases same : head.lookup path = pull.copies.lookup path
    · rw [kept same] at isDigest
      rw [same]
      exact starts.mirrors.digests path digest isDigest
    · rw [moved same] at isDigest
      exact isDigest

section Detection

variable (pull) in
/-- `detect_local_changes_against` a base: its copies and its LF digests. -/
def detectorAt (foldCase : Path → Path) (policy : SharePolicy) (base : Tree × OriginState) :
    Detector where
  sha256Hex := pull.sha256Hex
  foldCase := foldCase
  policy := policy
  baseCopies := some base.1
  lfDigests := some base.2.lfDigests

variable {foldCase : Path → Path} {policy : SharePolicy} {base : Tree × OriginState}

/-- The file and the base of a path agree: neither is there, or the file counts
as unchanged. -/
def Agrees (detector : Detector) (tree : Tree) (files : Snapshot) (path : Path) : Prop :=
  (tree.lookup path = none ∧ files.lookup path = none) ∨
    ∃ bytes stamp, tree.lookup path = some bytes ∧ files.lookup path = some stamp ∧
      detector.unchanged path stamp bytes = true

variable {change : LocalChange} {detector : Detector} {files : Snapshot}

theorem silent_of_agrees {tree : Tree} (reports : detector.Reports tree files change) :
    ¬ Agrees detector tree files change.path := by
  rintro (⟨noFile, noBase⟩ | ⟨bytes, stamp, isFile, isBase, unchanged⟩)
  · cases reports with
    | modified onDisk _ _ _ => exact absurd (noFile.symm.trans onDisk.1) nofun
    | recased adopts _ _ => exact absurd (noBase.symm.trans adopts.listed.1) nofun
    | added onDisk _ _ _ => exact absurd (noFile.symm.trans onDisk.1) nofun
    | deleted listed _ _ _ => exact absurd (noBase.symm.trans listed.1) nofun
  · have onDisk : detector.OnDisk tree change.path bytes := ⟨isFile, reports.takesPart⟩
    have listed : detector.Listed files change.path stamp := ⟨isBase, reports.takesPart⟩
    have changed := (reports.of_listed_onDisk onDisk listed rfl).2
    rw [unchanged] at changed
    cases changed

omit [DecidableEq Value] in
theorem unchanged_of_pulled {path : Path} {content bytes : Bytes}
    (isDigest : base.2.lfDigests.lookup path = lfDigest pull.sha256Hex path content)
    (isPulled : bytes = content ∨ bytes = asPulled path content) :
    (pull.detectorAt foldCase policy base).unchanged path (stamp pull.sha256Hex content)
      bytes = true := by
  have exactly : ∀ lf, sameAsBase (stamp pull.sha256Hex content) lf content.length
      (pull.sha256Hex content) = true := by
    intro lf
    simp [sameAsBase, stamp]
  obtain rfl | rfl := isPulled
  · simp [Detector.unchanged, detectorAt, exactly]
  · unfold asPulled
    cases isText : fromUtf8 content with
    | none => simp [Detector.unchanged, detectorAt, exactly]
    | some text =>
        by_cases markdown : isMarkdown path = true
        · by_cases same : toUtf8 (toLf text) = content
          · simp [Detector.unchanged, detectorAt, markdown, same, exactly]
          · have recorded : base.2.lfDigests.lookup path =
                some (pull.sha256Hex (toUtf8 (toLf text))) := by
              rw [isDigest, lfDigest, if_pos markdown, isText, Option.bind_some, if_pos same]
            simp [Detector.unchanged, detectorAt, markdown, sameAsBase, recorded]
        · simp [Detector.unchanged, detectorAt, markdown, exactly]

/-- Detection reports no path that stood as the base before. -/
theorem silent_of_standsAsBase (starts : pull.Starts tree head edits) {path : Path}
    (shared : isIndexPath path = false) (stands : pull.StandsAsBase tree path)
    (reports : (pull.detectorAt foldCase policy
        ((pull.pulled tree conflictFiles edits).copies,
          (pull.pulled tree conflictFiles edits).state)).Reports
      (pull.pulled tree conflictFiles edits).run.tree
      (pull.pulled tree conflictFiles edits).state.files change) : change.path ≠ path := by
  rintro rfl
  apply silent_of_agrees reports
  obtain ⟨copy, file, moved, kept⟩ := pulled_base conflictFiles starts change.path
  by_cases same : head.lookup change.path = pull.copies.lookup change.path
  · -- Upstream left the path alone: it stands as the base as before.
    have unmoved := pulled_elsewhere conflictFiles starts same
    obtain asCopy | ⟨local_, isLocal, asLf⟩ := stands
    · cases isCopy : pull.copies.lookup change.path with
      | none => exact .inl ⟨by rw [unmoved, asCopy, isCopy], by rw [file, same, isCopy]; rfl⟩
      | some content =>
          refine .inr ⟨content, stamp pull.sha256Hex content, by rw [unmoved, asCopy, isCopy],
            by rw [file, same, isCopy]; rfl, ?_⟩
          simp [Detector.unchanged, detectorAt, sameAsBase, stamp]
    · have recorded := starts.mirrors.files change.path
      cases isCopy : pull.copies.lookup change.path with
      | none =>
          rw [isCopy] at recorded
          simp [localIsBaseAsLf, recorded] at asLf
      | some content =>
          refine .inr ⟨local_, stamp pull.sha256Hex content, by rw [unmoved, isLocal],
            by rw [file, same, isCopy]; rfl, ?_⟩
          rw [isCopy] at recorded
          simp only [localIsBaseAsLf, recorded, Option.map_some, matchesBaseAsLf, isCopy] at asLf
          simp only [Detector.unchanged, Detector.sameTextAsBase, detectorAt, Option.bind_some,
            kept same, Option.any_some, matchesBaseAsLf, copy.trans same, isCopy]
          exact asLf
  · -- The path took upstream, or held it already.
    have here := pulled_here conflictFiles starts same
    have member := (starts.difference.edits change.path _).mpr ⟨rfl, same⟩
    have ends := fate_of_standsAsBase starts.mirrors ⟨change.path, _⟩ shared
      (starts.noOverride _ member) stands same
    cases isHead : head.lookup change.path with
    | none =>
        rw [isHead] at here ends file
        obtain taken | ⟨held, taken⟩ := ends
        · exact .inl ⟨here.trans taken, file⟩
        · exact .inl ⟨here.trans (taken.trans held), file⟩
    | some content =>
        rw [isHead] at here ends file moved
        have isDigest := moved (isHead ▸ same)
        rw [Option.bind_some] at isDigest
        obtain taken | ⟨held, taken⟩ := ends
        · exact .inr ⟨_, _, here.trans taken, file, unchanged_of_pulled isDigest (.inr rfl)⟩
        · exact .inr ⟨_, _, here.trans (taken.trans held), file,
            unchanged_of_pulled isDigest (.inl rfl)⟩

/-- Paths that fold alike are one path. -/
def CaseDistinct (foldCase : Path → Path) (present : Path → Prop) : Prop :=
  ∀ left right, present left → present right → foldCase left = foldCase right → left = right

/-- What a path alone says of its change. -/
def ReportsAlone (detector : Detector) (tree : Tree) (files : Snapshot) : LocalChange → Prop
  | .modified path sha256 => ∃ bytes stamp, detector.OnDisk tree path bytes ∧
      Detector.Small bytes ∧ detector.Listed files path stamp ∧
        detector.unchanged path stamp bytes = false ∧ sha256 = detector.sha256Hex bytes
  | .added path sha256 => ∃ bytes, detector.OnDisk tree path bytes ∧ Detector.Small bytes ∧
      (∀ stamp, ¬ detector.Listed files path stamp) ∧ sha256 = detector.sha256Hex bytes
  | .deleted path => (∃ stamp, detector.Listed files path stamp) ∧
      ∀ bytes, ¬ detector.OnDisk tree path bytes

/-- Where no two paths fold alike, each is reported for itself. -/
theorem reports_iff_alone {tree : Tree} (apart : CaseDistinct detector.foldCase fun path =>
      tree.lookup path ≠ none ∨ files.lookup path ≠ none) :
    detector.Reports tree files change ↔ ReportsAlone detector tree files change := by
  have present : ∀ {path bytes}, detector.OnDisk tree path bytes →
      tree.lookup path ≠ none ∨ files.lookup path ≠ none := by
    intro path bytes onDisk
    exact .inl (by simp [onDisk.1])
  have known : ∀ {path stamp}, detector.Listed files path stamp →
      tree.lookup path ≠ none ∨ files.lookup path ≠ none := by
    intro path stamp listed
    exact .inr (by simp [listed.1])
  have none_adopts : ∀ {path bytes key stamp},
      ¬ detector.Adopts tree files path bytes key stamp := by
    intro path bytes key stamp adopts
    obtain rfl := apart path key (present adopts.unmatched.onDisk) (known adopts.listed)
      adopts.unmatched.folds
    exact adopts.absent bytes adopts.unmatched.onDisk
  constructor
  · intro reports
    cases reports with
    | modified onDisk small listed changed => exact ⟨_, _, onDisk, small, listed, changed, rfl⟩
    | recased adopts small changed => exact absurd adopts none_adopts
    | added onDisk small unlisted fresh => exact ⟨_, onDisk, small, unlisted, rfl⟩
    | deleted listed absent unadopted noTwin => exact ⟨⟨_, listed⟩, absent⟩
  · intro alone
    cases change with
    | modified path sha256 =>
        obtain ⟨bytes, stamp, onDisk, small, listed, changed, rfl⟩ := alone
        exact .modified onDisk small listed changed
    | added path sha256 =>
        obtain ⟨bytes, onDisk, small, unlisted, rfl⟩ := alone
        exact .added onDisk small unlisted fun _ _ => none_adopts
    | deleted path =>
        obtain ⟨⟨stamp, listed⟩, absent⟩ := alone
        refine .deleted listed absent (fun _ _ => none_adopts) ?_
        intro other otherStamp otherListed alike
        obtain rfl := apart other path (known otherListed) (known listed) alike
        exact absent

/-- A path's own change depends on its own file and base. -/
theorem reportsAlone_congr {one two : Detector} {tree tree' : Tree} {files files' : Snapshot}
    (sameDigest : one.sha256Hex = two.sha256Hex) (samePolicy : one.policy = two.policy)
    (sameFile : tree.lookup change.path = tree'.lookup change.path)
    (sameBase : files.lookup change.path = files'.lookup change.path)
    (sameTest : ∀ stamp bytes, one.unchanged change.path stamp bytes =
      two.unchanged change.path stamp bytes) :
    ReportsAlone one tree files change ↔ ReportsAlone two tree' files' change := by
  cases change with
  | modified path sha256 =>
      simp only [LocalChange.path_modified] at sameFile sameBase sameTest
      simp only [ReportsAlone, Detector.OnDisk, Detector.Listed, sameDigest, samePolicy, sameFile,
        sameBase, sameTest]
  | added path sha256 =>
      simp only [LocalChange.path_added] at sameFile sameBase sameTest
      simp only [ReportsAlone, Detector.OnDisk, Detector.Listed, sameDigest, samePolicy, sameFile,
        sameBase]
  | deleted path =>
      simp only [LocalChange.path_deleted] at sameFile sameBase sameTest
      simp only [ReportsAlone, Detector.OnDisk, Detector.Listed, samePolicy, sameFile, sameBase]

/-- A path that some side of the pull has. -/
def Present (pull : Pull Value) (tree head : Tree) (path : Path) : Prop :=
  tree.lookup path ≠ none ∨ pull.copies.lookup path ≠ none ∨ head.lookup path ≠ none

/-- A path upstream left alone is reported as before. -/
theorem reports_of_unmoved (starts : pull.Starts tree head edits)
    (apart : CaseDistinct foldCase (Present pull tree head))
    (same : head.lookup change.path = pull.copies.lookup change.path) :
    (pull.detectorAt foldCase policy ((pull.pulled tree conflictFiles edits).copies,
          (pull.pulled tree conflictFiles edits).state)).Reports
        (pull.pulled tree conflictFiles edits).run.tree
        (pull.pulled tree conflictFiles edits).state.files change ↔
      (pull.detectorAt foldCase policy (pull.copies, pull.state)).Reports tree
        pull.state.files change := by
  have recorded : ∀ path, pull.state.files.lookup path ≠ none →
      pull.copies.lookup path ≠ none := by
    intro path isFile isCopy
    rw [starts.mirrors.files, isCopy] at isFile
    exact isFile rfl
  have apartBefore : CaseDistinct foldCase fun path =>
      tree.lookup path ≠ none ∨ pull.state.files.lookup path ≠ none := by
    intro left right leftThere rightThere
    apply apart left right
    · exact leftThere.imp_right fun isFile => .inl (recorded left isFile)
    · exact rightThere.imp_right fun isFile => .inl (recorded right isFile)
  have presentAfter : ∀ path,
      ((pull.pulled tree conflictFiles edits).run.tree.lookup path ≠ none ∨
        (pull.pulled tree conflictFiles edits).state.files.lookup path ≠ none) →
          Present pull tree head path := by
    intro path there
    by_cases unmoved : head.lookup path = pull.copies.lookup path
    · rw [pulled_elsewhere conflictFiles starts unmoved,
        (pulled_base conflictFiles starts path).2.1] at there
      refine there.imp_right fun isFile => .inr ?_
      intro noHead
      rw [noHead] at isFile
      exact isFile rfl
    · refine .inr ?_
      by_contra neither
      rw [not_or, not_not, not_not] at neither
      exact unmoved (neither.2.trans neither.1.symm)
  have apartAfter : CaseDistinct foldCase fun path =>
      (pull.pulled tree conflictFiles edits).run.tree.lookup path ≠ none ∨
        (pull.pulled tree conflictFiles edits).state.files.lookup path ≠ none :=
    fun left right leftThere rightThere =>
      apart left right (presentAfter left leftThere) (presentAfter right rightThere)
  obtain ⟨copy, file, -, kept⟩ := pulled_base conflictFiles starts change.path
  rw [reports_iff_alone apartAfter, reports_iff_alone apartBefore]
  refine reportsAlone_congr rfl rfl (pulled_elsewhere conflictFiles starts same) ?_ ?_
  · rw [file, same, starts.mirrors.files]
  · intro stamp bytes
    simp only [Detector.unchanged, Detector.sameTextAsBase, detectorAt, Option.bind_some,
      kept same, Option.any_some]
    rw [matchesBaseAsLf_congr pull.sha256Hex (copy.trans same)]

end Detection

end Whole

end Pull

end Crystalline.Remote
