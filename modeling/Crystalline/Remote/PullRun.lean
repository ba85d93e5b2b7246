import Crystalline.Remote.Pull

/-!
# One run of the merge loop

A step touches the path of its edit only, and what it does there depends on the
content there and on nothing the loop changes.  So every edited path ends as its
fate says, and every other path as it was.
-/

namespace Crystalline.Remote

open Text

/-- What a fate leaves of the content of a path. -/
def Fate.content (path : Path) (local_ : Option Bytes) : Fate → Option Bytes
  | .written content _ => some (asPulled path content)
  | .removed => none
  | .kept | .conflict _ => local_

theorem removalsFirst_perm (edits : List UpstreamEdit) : (removalsFirst edits).Perm edits := by
  have writes : (edits.filter fun edit => edit.content.isSome) =
      edits.filter fun edit => !edit.content.isNone := by
    congr 1
    funext edit
    cases edit.content <;> rfl
  rw [removalsFirst, writes]
  exact List.filter_append_perm _ edits

namespace Pull

variable {Value : Type} {pull : Pull Value}

theorem tree_recordConflict (run : MergeRun) (edit : UpstreamEdit) (kind : ConflictKind) :
    (pull.recordConflict run edit kind).tree = run.tree := by
  unfold recordConflict
  split <;> rfl

/-- A conflict of this path and upstream commit is recorded. -/
def Already (pull : Pull Value) (conflicts : List Conflict) (edit : UpstreamEdit) : Prop :=
  ∃ conflict ∈ conflicts, conflict.path = edit.path ∧ conflict.upstreamCommit = pull.head

/-- The record of a conflict, with the two sides it keeps. -/
structure Records (pull : Pull Value) (run : MergeRun) (edit : UpstreamEdit)
    (kind : ConflictKind) (conflict : Conflict) : Prop where
  path : conflict.path = edit.path
  kind : conflict.kind = kind
  baseCommit : conflict.baseCommit = pull.state.baseCommit
  upstreamCommit : conflict.upstreamCommit = pull.head
  files : run.conflictFiles.lookup conflict.id = some (pull.baseOf edit.path, edit.content)

/-- Ids are drawn fresh. -/
def FreshIds (pull : Pull Value) : Prop :=
  ∀ conflicts : List Conflict,
    pull.newConflictId conflicts ∉ conflicts.map Conflict.id

/-- What a run keeps of the conflicts recorded before. -/
structure Keeps (before after : MergeRun) : Prop where
  conflicts : ∀ conflict ∈ before.conflicts, conflict ∈ after.conflicts
  files : ∀ conflict ∈ before.conflicts,
    after.conflictFiles.lookup conflict.id = before.conflictFiles.lookup conflict.id

theorem Keeps.refl (run : MergeRun) : Keeps run run where
  conflicts _ member := member
  files _ _ := rfl

theorem Keeps.trans {first second third : MergeRun} (one : Keeps first second)
    (two : Keeps second third) : Keeps first third where
  conflicts conflict member := two.conflicts conflict (one.conflicts conflict member)
  files conflict member := (two.files conflict (one.conflicts conflict member)).trans
    (one.files conflict member)

variable {edit : UpstreamEdit}

theorem Records.kept {first second : MergeRun} (keeps : Keeps first second) {kind : ConflictKind}
    {conflict : Conflict} (member : conflict ∈ first.conflicts)
    (records : pull.Records first edit kind conflict) : pull.Records second edit kind conflict :=
  { records with files := (keeps.files conflict member).trans records.files }

theorem recordConflict_already {run : MergeRun} (already : pull.Already run.conflicts edit)
    (kind : ConflictKind) : pull.recordConflict run edit kind = run := by
  obtain ⟨conflict, member, samePath, sameCommit⟩ := already
  rw [recordConflict, if_pos]
  rw [List.any_eq_true]
  exact ⟨conflict, member, by simp [samePath, sameCommit]⟩

/-- A conflict recorded anew. -/
theorem recordConflict_new {run : MergeRun} (unrecorded : ¬ pull.Already run.conflicts edit)
    (kind : ConflictKind) :
    ∃ conflict, (pull.recordConflict run edit kind).conflicts = run.conflicts ++ [conflict] ∧
      conflict.id = pull.newConflictId run.conflicts ∧
      (pull.recordConflict run edit kind).conflictFiles =
        run.conflictFiles.insert conflict.id
          ((pull.baseOf edit.path, edit.content) : ConflictFiles) ∧
      pull.Records (pull.recordConflict run edit kind) edit kind conflict := by
  have unfolded : pull.recordConflict run edit kind =
      { run with
        conflicts := run.conflicts ++ [{
          id := pull.newConflictId run.conflicts
          path := edit.path
          kind := kind
          baseCommit := pull.state.baseCommit
          upstreamCommit := pull.head }]
        conflictFiles := run.conflictFiles.insert (pull.newConflictId run.conflicts)
          ((pull.baseOf edit.path, edit.content) : ConflictFiles)
        newConflicts := run.newConflicts ++ [{
          id := pull.newConflictId run.conflicts
          path := edit.path
          kind := kind
          baseCommit := pull.state.baseCommit
          upstreamCommit := pull.head }] } := by
    rw [recordConflict, if_neg]
    rw [List.any_eq_true]
    rintro ⟨conflict, member, same⟩
    rw [Bool.and_eq_true, decide_eq_true_eq, decide_eq_true_eq] at same
    exact unrecorded ⟨conflict, member, same⟩
  rw [unfolded]
  exact ⟨_, rfl, rfl, rfl, rfl, rfl, rfl, rfl, AList.lookup_insert _⟩

theorem recordConflict_keeps (fresh : pull.FreshIds) (run : MergeRun) (edit : UpstreamEdit)
    (kind : ConflictKind) : Keeps run (pull.recordConflict run edit kind) := by
  by_cases already : pull.Already run.conflicts edit
  · rw [recordConflict_already already]
    exact .refl run
  · obtain ⟨conflict, conflicts, isFresh, files, -⟩ := recordConflict_new already kind
    refine ⟨?_, ?_⟩
    · intro other member
      rw [conflicts]
      exact List.mem_append_left _ member
    · intro other member
      rw [files]
      apply AList.lookup_insert_ne
      intro same
      apply fresh run.conflicts
      rw [← isFresh, ← same]
      exact List.mem_map_of_mem member

variable [DecidableEq Value]

theorem mergeStep_here (run : MergeRun) (edit : UpstreamEdit) :
    (pull.mergeStep run edit).tree.lookup edit.path =
      (pull.fate (run.tree.lookup edit.path) edit).content edit.path
        (run.tree.lookup edit.path) := by
  unfold mergeStep
  cases pull.fate (run.tree.lookup edit.path) edit with
  | kept => rfl
  | written content merged => simp [Fate.content]
  | removed => simp [Fate.content]
  | conflict kind => simp [Fate.content, tree_recordConflict]

variable (pull) in
theorem mergeStep_elsewhere (run : MergeRun) {edit : UpstreamEdit} {path : Path}
    (other : path ≠ edit.path) :
    (pull.mergeStep run edit).tree.lookup path = run.tree.lookup path := by
  unfold mergeStep
  cases pull.fate (run.tree.lookup edit.path) edit with
  | kept => rfl
  | written content merged => exact AList.lookup_insert_ne other
  | removed => exact AList.lookup_erase_ne other
  | conflict kind => rw [tree_recordConflict]

variable {edits : List UpstreamEdit}

theorem loop_elsewhere {path : Path} (unnamed : path ∉ edits.map UpstreamEdit.path)
    (run : MergeRun) :
    (edits.foldl pull.mergeStep run).tree.lookup path = run.tree.lookup path := by
  induction edits generalizing run with
  | nil => rfl
  | cons edit edits induction =>
      rw [List.map_cons, List.mem_cons, not_or] at unnamed
      rw [List.foldl_cons, induction unnamed.2, mergeStep_elsewhere pull run unnamed.1]

variable (pull) in
theorem loop_here (distinct : (edits.map UpstreamEdit.path).Nodup) {edit : UpstreamEdit}
    (member : edit ∈ edits) (run : MergeRun) :
    (edits.foldl pull.mergeStep run).tree.lookup edit.path =
      (pull.fate (run.tree.lookup edit.path) edit).content edit.path
        (run.tree.lookup edit.path) := by
  induction edits generalizing run with
  | nil => cases member
  | cons first edits induction =>
      rw [List.map_cons, List.nodup_cons] at distinct
      rw [List.foldl_cons]
      rcases List.mem_cons.mp member with rfl | later
      · rw [loop_elsewhere distinct.1, mergeStep_here]
      · have other : edit.path ≠ first.path := by
          intro same
          exact distinct.1 (same ▸ List.mem_map_of_mem later)
        rw [induction distinct.2 later, mergeStep_elsewhere pull run other]

theorem mergeStep_keeps (fresh : pull.FreshIds) (run : MergeRun) (edit : UpstreamEdit) :
    Keeps run (pull.mergeStep run edit) := by
  unfold mergeStep
  cases pull.fate (run.tree.lookup edit.path) edit with
  | kept => exact .refl run
  | written content merged => exact ⟨fun _ member => member, fun _ _ => rfl⟩
  | removed => exact ⟨fun _ member => member, fun _ _ => rfl⟩
  | conflict kind => exact recordConflict_keeps fresh run edit kind

theorem loop_keeps (fresh : pull.FreshIds) (edits : List UpstreamEdit) (run : MergeRun) :
    Keeps run (edits.foldl pull.mergeStep run) := by
  induction edits generalizing run with
  | nil => exact .refl run
  | cons edit edits induction =>
      exact (mergeStep_keeps fresh run edit).trans (induction _)

variable (pull) in
theorem mergeStep_conflicts (run : MergeRun) (edit : UpstreamEdit) :
    (pull.mergeStep run edit).conflicts = run.conflicts ∨
      ∃ conflict kind, (pull.mergeStep run edit).conflicts = run.conflicts ++ [conflict] ∧
        pull.fate (run.tree.lookup edit.path) edit = .conflict kind ∧
          ¬ pull.Already run.conflicts edit ∧
            pull.Records (pull.mergeStep run edit) edit kind conflict := by
  unfold mergeStep
  cases pull.fate (run.tree.lookup edit.path) edit with
  | kept => exact .inl rfl
  | written content merged => exact .inl rfl
  | removed => exact .inl rfl
  | conflict kind =>
      by_cases already : pull.Already run.conflicts edit
      · refine .inl ?_
        dsimp only
        rw [recordConflict_already already]
      · obtain ⟨conflict, conflicts, -, -, records⟩ := recordConflict_new already kind
        exact .inr ⟨conflict, kind, conflicts, rfl, already, records⟩

theorem already_mergeStep (run : MergeRun) {first edit : UpstreamEdit}
    (other : edit.path ≠ first.path) :
    pull.Already (pull.mergeStep run first).conflicts edit ↔
      pull.Already run.conflicts edit := by
  obtain same | ⟨conflict, kind, conflicts, -, -, records⟩ := mergeStep_conflicts pull run first
  · rw [same]
  · rw [conflicts]
    constructor
    · rintro ⟨found, member, samePath, sameCommit⟩
      rcases List.mem_append.mp member with old | new
      · exact ⟨found, old, samePath, sameCommit⟩
      · rw [List.mem_singleton.mp new, records.path] at samePath
        exact absurd samePath.symm other
    · rintro ⟨found, member, same⟩
      exact ⟨found, List.mem_append_left _ member, same⟩

/-- The loop records just the conflicts its edits end in, once. -/
theorem loop_conflicts (fresh : pull.FreshIds) (distinct : (edits.map UpstreamEdit.path).Nodup)
    (run : MergeRun) (conflict : Conflict) :
    conflict ∈ (edits.foldl pull.mergeStep run).conflicts ↔
      conflict ∈ run.conflicts ∨
        (conflict ∈ (edits.foldl pull.mergeStep run).conflicts ∧ ∃ edit ∈ edits, ∃ kind,
          pull.fate (run.tree.lookup edit.path) edit = .conflict kind ∧
            ¬ pull.Already run.conflicts edit ∧
              pull.Records (edits.foldl pull.mergeStep run) edit kind conflict) := by
  refine ⟨fun member => ?_, ?_⟩
  · induction edits generalizing run with
    | nil => exact .inl member
    | cons first edits induction =>
        rw [List.map_cons, List.nodup_cons] at distinct
        rw [List.foldl_cons] at member ⊢
        have others : ∀ edit ∈ edits, edit.path ≠ first.path := by
          intro edit found same
          exact distinct.1 (same ▸ List.mem_map_of_mem found)
        rcases induction distinct.2 _ member with old | ⟨-, edit, found, kind, ends, unrecorded,
          records⟩
        · obtain same | ⟨new, kind, conflicts, ends, unrecorded, records⟩ :=
            mergeStep_conflicts pull run first
          · exact .inl (same ▸ old)
          · rw [conflicts] at old
            rcases List.mem_append.mp old with older | isNew
            · exact .inl older
            · rw [List.mem_singleton.mp isNew] at member ⊢
              refine .inr ⟨member, first, List.mem_cons_self, kind, ends, unrecorded, ?_⟩
              refine records.kept (loop_keeps fresh edits _) ?_
              rw [conflicts]
              exact List.mem_append_right _ (List.mem_singleton_self new)
        · refine .inr ⟨member, edit, List.mem_cons_of_mem _ found, kind, ?_, ?_, records⟩
          · rw [← mergeStep_elsewhere pull run (others edit found)]
            exact ends
          · rw [← already_mergeStep run (others edit found)]
            exact unrecorded
  · rintro (old | ⟨member, -⟩)
    · exact (loop_keeps fresh edits run).conflicts conflict old
    · exact member

/-- An edit that ends in a conflict is recorded, unless it was before. -/
theorem loop_records (fresh : pull.FreshIds) (distinct : (edits.map UpstreamEdit.path).Nodup)
    (run : MergeRun) (found : edit ∈ edits) {kind : ConflictKind}
    (ends : pull.fate (run.tree.lookup edit.path) edit = .conflict kind)
    (unrecorded : ¬ pull.Already run.conflicts edit) :
    ∃ conflict ∈ (edits.foldl pull.mergeStep run).conflicts,
      pull.Records (edits.foldl pull.mergeStep run) edit kind conflict := by
  induction edits generalizing run with
  | nil => cases found
  | cons first edits induction =>
      rw [List.map_cons, List.nodup_cons] at distinct
      rw [List.foldl_cons]
      rcases List.mem_cons.mp found with rfl | later
      · have step : pull.mergeStep run edit = pull.recordConflict run edit kind := by
          rw [mergeStep, ends]
        obtain ⟨conflict, conflicts, -, -, records⟩ := recordConflict_new unrecorded kind
        have member : conflict ∈ (pull.mergeStep run edit).conflicts := by
          rw [step, conflicts]
          exact List.mem_append_right _ (List.mem_singleton_self conflict)
        have keeps := loop_keeps fresh edits (pull.mergeStep run edit)
        exact ⟨conflict, keeps.conflicts conflict member,
          Records.kept keeps member (step ▸ records)⟩
      · have other : edit.path ≠ first.path := by
          intro same
          exact distinct.1 (same ▸ List.mem_map_of_mem later)
        refine induction distinct.2 _ later ?_ ?_
        · rw [mergeStep_elsewhere pull run other]
          exact ends
        · rw [already_mergeStep run other]
          exact unrecorded

end Pull

end Crystalline.Remote
