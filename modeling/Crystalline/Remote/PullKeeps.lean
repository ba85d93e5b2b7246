import Crystalline.Remote.PullSound

/-!
# What a pull owes the person at the keyboard

The properties of the merge loop and the base advance together, and the two
places where they are less than a plain reading: a generated index is recorded
and never written, and a conflict already recorded for the same upstream commit
is not recorded again.
-/

namespace Crystalline.Remote

open Text

namespace Pull

variable {Value : Type} [DecidableEq Value]

/-- A conflict of a path is on record with the base before the pull and the
head's content, or was recorded before for the same head. -/
def OnRecord (pull : Pull Value) (after : Pulled) (path : Path) (kind : ConflictKind)
    (upstream : Option Bytes) : Prop :=
  (∃ conflict ∈ after.state.conflicts, conflict.path = path ∧ conflict.kind = kind ∧
      conflict.upstreamCommit = pull.head ∧
        after.run.conflictFiles.lookup conflict.id = some (pull.copies.lookup path, upstream)) ∨
    ∃ conflict ∈ pull.state.conflicts, conflict.path = path ∧
      conflict.upstreamCommit = pull.head ∧ conflict ∈ after.state.conflicts

/-- What a path both sides changed ends as. -/
def Settled (pull : Pull Value) (tree : Tree) (after : Pulled) (path : Path)
    (upstream : Option Bytes) : Prop :=
  let base := pull.copies.lookup path
  let side := pull.localSide path (tree.lookup path) base upstream
  (∃ content, pull.merger.mergeFile base side upstream = .apply content ∧
      after.run.tree.lookup path = some (asPulled path content)) ∨
    (side = upstream ∧ (after.run.tree.lookup path = upstream.map (asPulled path) ∨
      (tree.lookup path = upstream ∧ after.run.tree.lookup path = upstream))) ∨
    ∃ kind, pull.merger.mergeFile base side upstream = .conflict kind ∧
      after.run.tree.lookup path = tree.lookup path ∧ pull.OnRecord after path kind upstream

/-- What a pull keeps and what it leaves. -/
structure LosesNothing (pull : Pull Value) (tree head : Tree) (after : Pulled) : Prop where
  base : ∀ path, after.copies.lookup path = head.lookup path
  mirrors : Mirrors pull.sha256Hex after.copies after.state
  taken : ∀ path, isIndexPath path = false → pull.IsBase tree path →
    head.lookup path ≠ pull.copies.lookup path →
      after.run.tree.lookup path = (head.lookup path).map (asPulled path)
  unmoved : ∀ path, head.lookup path = pull.copies.lookup path →
    after.run.tree.lookup path = tree.lookup path
  settled : ∀ path, isIndexPath path = false → ¬ pull.StandsAsBase tree path →
    head.lookup path ≠ pull.copies.lookup path → pull.Settled tree after path (head.lookup path)
  indexes : ∀ path, isIndexPath path = true → after.run.tree.lookup path = tree.lookup path
  noNewWork : ∀ foldCase policy path, isIndexPath path = false → pull.StandsAsBase tree path →
    ∀ change, (pull.detectorAt foldCase policy (after.copies, after.state)).Reports
      after.run.tree after.state.files change → change.path ≠ path
  sameWork : ∀ foldCase policy, CaseDistinct foldCase (Present pull tree head) →
    ∀ change, head.lookup change.path = pull.copies.lookup change.path →
      ((pull.detectorAt foldCase policy (after.copies, after.state)).Reports
          after.run.tree after.state.files change ↔
        (pull.detectorAt foldCase policy (pull.copies, pull.state)).Reports tree
          pull.state.files change)

variable {pull : Pull Value} {tree head : Tree} {edits : List UpstreamEdit}

omit [DecidableEq Value] in
theorem asPulled_of_isBase {path : Path} (isBase : pull.IsBase tree path)
    (changed : head.lookup path ≠ pull.copies.lookup path)
    (held : tree.lookup path = head.lookup path) :
    tree.lookup path = (head.lookup path).map (asPulled path) := by
  obtain same | ⟨content, text, -, markdown, -, isLf⟩ := isBase
  · exact absurd (held.symm.trans same) changed
  · rw [← held, isLf, Option.map_some, asPulled, fromUtf8_toUtf8]
    simp [markdown, toLf_idem]

/-- A pull loses no local work and leaves that work as the local change list. -/
theorem pull_loses_nothing (starts : pull.Starts tree head edits)
    (conflictFiles : AList fun _ : Nat => ConflictFiles) :
    pull.LosesNothing tree head (pull.pulled tree conflictFiles edits) where
  base path := (pulled_base conflictFiles starts path).1
  mirrors := pulled_mirrors starts
  taken := by
    intro path shared isBase changed
    have member := (starts.difference.edits path _).mpr ⟨rfl, changed⟩
    have here := pulled_here conflictFiles starts changed
    obtain taken | ⟨held, kept⟩ := fate_of_standsAsBase starts.mirrors ⟨path, _⟩ shared
      (starts.noOverride _ member) (isBase.standsAsBase starts.mirrors) changed
    · exact here.trans taken
    · exact here.trans (kept.trans (asPulled_of_isBase isBase changed held))
  unmoved _ same := pulled_elsewhere conflictFiles starts same
  settled := by
    intro path shared untaken changed
    have member := (starts.difference.edits path _).mpr ⟨rfl, changed⟩
    have here := pulled_here conflictFiles starts changed
    obtain ⟨content, merges, written⟩ | ⟨agree, taken | ⟨held, kept⟩⟩ | ⟨kind, merges, ends⟩ :=
      fate_of_changed starts.mirrors ⟨path, _⟩ shared (starts.noOverride _ member) untaken
        changed
    · exact .inl ⟨content, merges, here.trans written⟩
    · exact .inr (.inl ⟨agree, .inl (here.trans taken)⟩)
    · exact .inr (.inl ⟨agree, .inr ⟨held, here.trans (kept.trans held)⟩⟩)
    · refine .inr (.inr ⟨kind, merges, ?_, ?_⟩)
      · rw [here, ends]
        rfl
      · have distinct := removalsFirst_distinct starts.difference.distinct
        unfold OnRecord
        rw [pulled_conflicts]
        by_cases already : pull.Already pull.state.conflicts ⟨path, head.lookup path⟩
        · obtain ⟨conflict, old, samePath, sameCommit⟩ := already
          exact .inr ⟨conflict, old, samePath, sameCommit,
            (loop_keeps starts.fresh _ _).conflicts conflict old⟩
        · obtain ⟨conflict, found, records⟩ := loop_records starts.fresh distinct
            { tree := tree, conflicts := pull.state.conflicts, conflictFiles := conflictFiles
              applied := [], merged := [], newConflicts := [] }
            (mem_removalsFirst.mpr member) ends already
          refine .inl ⟨conflict, found, records.path, records.kind, records.upstreamCommit, ?_⟩
          rw [← baseOf_eq starts.mirrors]
          exact records.files
  indexes := by
    intro path index
    by_cases same : head.lookup path = pull.copies.lookup path
    · exact pulled_elsewhere conflictFiles starts same
    · rw [pulled_here conflictFiles starts same, fate, if_pos index]
      rfl
  noNewWork _ _ _ shared stands _ reports := silent_of_standsAsBase starts shared stands reports
  sameWork _ _ apart _ same := reports_of_unmoved starts apart same

section Samples

/-- An id above all the ids in use. -/
def nextId : List Conflict → Nat
  | [] => 0
  | conflict :: conflicts => max (conflict.id + 1) (nextId conflicts)

theorem id_lt_nextId {conflicts : List Conflict} {conflict : Conflict}
    (member : conflict ∈ conflicts) : conflict.id < nextId conflicts := by
  induction conflicts with
  | nil => cases member
  | cons first conflicts induction =>
      rcases List.mem_cons.mp member with rfl | later
      · exact Nat.lt_of_lt_of_le (Nat.lt_succ_self _) (Nat.le_max_left _ _)
      · exact Nat.lt_of_lt_of_le (induction later) (Nat.le_max_right _ _)

/-- A pull over given base copies and conflicts, with a line merge that settles
nothing. -/
def samplePull (copies : List (Σ _ : Path, Bytes)) (conflicts : List Conflict) :
    Pull PlainValue where
  merger :=
    { yaml := plainYaml
      lineMerge := fun _ _ _ => none
      parses := fun _ => true
      declaredEvolveHome := fun _ => none
      isEvolveHome := fun _ => false
      formatScalarLine := fun _ _ => [] }
  sha256Hex := Detector.spelledOut
  newConflictId := nextId
  state :=
    { copies.foldl (fun state file => state.recordBase Detector.spelledOut file.1 file.2)
        (OriginState.new "main") with conflicts := conflicts }
  copies := copies.foldl (fun tree file => tree.insert file.1 file.2) ∅
  mergedToConsume := []
  head := "h2"
  newEtag := none

section

variable (copies : List (Σ _ : Path, Bytes)) (conflicts : List Conflict)
include copies conflicts

theorem samplePull_fresh : (samplePull copies conflicts).FreshIds := by
  intro others member
  obtain ⟨conflict, found, same⟩ := List.mem_map.mp member
  exact absurd (id_lt_nextId found) (by rw [same]; exact Nat.lt_irrefl _)

theorem samplePull_mirrors :
    Mirrors (samplePull copies conflicts).sha256Hex (samplePull copies conflicts).copies
      (samplePull copies conflicts).state := by
  have recorded : ∀ (files : List (Σ _ : Path, Bytes)) (tree : Tree) (state : OriginState),
      Mirrors Detector.spelledOut tree state →
        Mirrors Detector.spelledOut (files.foldl (fun tree file => tree.insert file.1 file.2) tree)
          (files.foldl (fun state file =>
            state.recordBase Detector.spelledOut file.1 file.2) state) := by
    intro files
    induction files with
    | nil => exact fun _ _ mirrors => mirrors
    | cons file files induction =>
        intro tree state mirrors
        have step : Mirrors (samplePull [] []).sha256Hex (tree, state).1 (tree, state).2 := mirrors
        exact induction _ _ (step.advanceStep ⟨file.1, some file.2⟩)
  have empty : Mirrors Detector.spelledOut ∅ (OriginState.new "main") :=
    ⟨fun _ => rfl, fun _ _ isDigest => by cases isDigest⟩
  have whole := recorded copies ∅ (OriginState.new "main") empty
  exact ⟨whole.files, whole.digests⟩

theorem samplePull_starts (tree head : Tree) :
    (samplePull copies conflicts).Starts tree head
      (differenceOf head (samplePull copies conflicts).copies) where
  mirrors := samplePull_mirrors copies conflicts
  difference := differenceOf_isDifference _ _
  noOverride edit _ := by
    unfold proposalOverrideApplies
    split
    · rfl
    · rfl
  fresh := samplePull_fresh copies conflicts

end

/-- One file untouched but for its line endings, one changed on both sides. -/
theorem pull_loses_nothing_both :
    (samplePull [Detector.file "a.md" "one\r\n", Detector.file "b.md" "x"] []).LosesNothing
      [Detector.file "a.md" "one\n", Detector.file "b.md" "mine"].toAList
      [Detector.file "a.md" "two\r\n", Detector.file "b.md" "theirs"].toAList
      ((samplePull [Detector.file "a.md" "one\r\n", Detector.file "b.md" "x"] []).pulled
        [Detector.file "a.md" "one\n", Detector.file "b.md" "mine"].toAList ∅
        (differenceOf [Detector.file "a.md" "two\r\n", Detector.file "b.md" "theirs"].toAList
          (samplePull [Detector.file "a.md" "one\r\n", Detector.file "b.md" "x"] []).copies)) :=
  pull_loses_nothing (samplePull_starts _ _ _ _) ∅

/-- A conflict on record for the head's commit, from a pull over another base. -/
def recordedBefore : Conflict :=
  { id := 7, path := "notes.txt".toList, kind := .editDelete, baseCommit := "h0",
    upstreamCommit := "h2" }

/-- An untouched index does not take the head's listing, and a file in conflict
for the second time is named by the first record, which keeps other sides. -/
theorem pull_leaves_index_and_first_record :
    (∃ (pull : Pull PlainValue) (tree head : Tree) (edits : List UpstreamEdit) (path : Path),
      pull.Starts tree head edits ∧ tree.lookup path = pull.copies.lookup path ∧
        (pull.pulled tree ∅ edits).run.tree.lookup path ≠
          (head.lookup path).map (asPulled path) ∧
        (pull.pulled tree ∅ edits).run.tree.lookup path ≠ head.lookup path) ∧
      ∃ (pull : Pull PlainValue) (tree head : Tree)
        (conflictFiles : AList fun _ : Nat => ConflictFiles) (edits : List UpstreamEdit)
        (path : Path),
        pull.Starts tree head edits ∧ tree.lookup path ≠ pull.copies.lookup path ∧
          head.lookup path ≠ pull.copies.lookup path ∧
          pull.merger.mergeFile (pull.copies.lookup path) (tree.lookup path) (head.lookup path) =
            .conflict .editDelete ∧
          ∀ conflict ∈ (pull.pulled tree conflictFiles edits).state.conflicts,
            (pull.pulled tree conflictFiles edits).run.conflictFiles.lookup conflict.id ≠
              some (pull.copies.lookup path, head.lookup path) := by
  refine ⟨⟨samplePull [Detector.file "index.md" "old"] [],
    [Detector.file "index.md" "old"].toAList, ∅, _, "index.md".toList,
    samplePull_starts _ _ _ _, by decide, by decide, by decide⟩,
    ⟨samplePull [Detector.file "notes.txt" "base"] [recordedBefore],
      [Detector.file "notes.txt" "mine"].toAList, ∅,
      [⟨7, (some [1], none)⟩].toAList, _, "notes.txt".toList,
      samplePull_starts _ _ _ _, by decide, by decide, by decide, by decide⟩⟩

end Samples

end Pull

end Crystalline.Remote
