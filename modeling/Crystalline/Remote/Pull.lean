import Crystalline.Frontmatter.MergeText
import Crystalline.Remote.LocalChanges

/-!
# The merge loop of a pull

Every upstream edit is merged into the working tree, removals first, and the
base then takes the upstream content of every edited path, conflicts included.
-/

namespace Crystalline.Remote

open Text

/-- `FileMerge`. -/
inductive FileMerge where
  | apply (bytes : Bytes)
  | delete
  | converged
  | conflict (kind : ConflictKind)
  deriving DecidableEq, Repr

/-- What the merge of a file rests on: the YAML library, the line merge, the
engram parser and the home a MANIFEST names. -/
structure Merger (Value : Type) where
  yaml : Yaml Value
  lineMerge : LineMerge
  parses : Text → Bool
  /-- `declared_evolve_home` of a MANIFEST text. -/
  declaredEvolveHome : Text → Option Text
  /-- `validate_evolve_home`. -/
  isEvolveHome : Text → Bool
  /-- `format_scalar_line`, which the YAML library writes. -/
  formatScalarLine : Text → Text → Text

namespace Merger

variable {Value : Type} [DecidableEq Value] (merger : Merger Value)

/-- `attempt_text_merge`. -/
def attemptTextMerge (ancestor : Option Bytes) (local_ upstream : Bytes)
    (kind : ConflictKind) : FileMerge :=
  match fromUtf8 local_, fromUtf8 upstream, ancestor.map fromUtf8 with
  | some local_, some upstream, none =>
      match mergeText merger.yaml merger.lineMerge merger.parses none local_ upstream with
      | some merged => .apply (toUtf8 merged)
      | none => .conflict kind
  | some local_, some upstream, some (some ancestor) =>
      match mergeText merger.yaml merger.lineMerge merger.parses (some ancestor) local_
        upstream with
      | some merged => .apply (toUtf8 merged)
      | none => .conflict kind
  | _, _, _ => .conflict kind

/-- `merge_file`. -/
def mergeFile (base local_ upstream : Option Bytes) : FileMerge :=
  if local_ = upstream then .converged
  else if upstream = base then .converged
  else if local_ = base then
    match upstream with
    | some bytes => .apply bytes
    | none => .delete
  else
    match base, local_, upstream with
    | some _, none, some _ => .conflict .deleteEdit
    | some _, some _, none => .conflict .editDelete
    | none, some local_, some upstream =>
        merger.attemptTextMerge none local_ upstream .addAdd
    | some base, some local_, some upstream =>
        merger.attemptTextMerge (some base) local_ upstream .editEdit
    -- Resolved above: these shapes have no three distinct sides.
    | none, none, _ | none, some _, none | some _, none, none => .converged

/-- `evolve_home_of_source`: the home a MANIFEST names, where it is an origin. -/
def evolveHome (source : Text) : Option Text :=
  (merger.declaredEvolveHome source).filter merger.isEvolveHome

def evolveHomeKey : Text := "evolve_home".toList

/-- A MANIFEST without its claim and without the stamp written beside it. -/
def withoutClaim (source : Text) : Text :=
  removeFrontmatterField (removeFrontmatterField source evolveHomeKey) "generated".toList

/-- `settle_evolve_home_claim`: what a pull merges in place of the local
MANIFEST when the team's copy names a home and the local one claims another
over a base that names none. -/
def settleEvolveHomeClaim (base : Option Text) (local_ upstream : Text) : Option Text := do
  let team ← merger.evolveHome upstream
  let claim ← merger.declaredEvolveHome local_
  if claim = team || (base.bind merger.declaredEvolveHome).isSome then none
  else
    match base with
    | some base =>
        if sameContent merger.yaml (withoutClaim local_) (withoutClaim base) then some base
        else some (setFrontmatterLine local_ evolveHomeKey
          (merger.formatScalarLine evolveHomeKey team))
    | none =>
        some (setFrontmatterLine local_ evolveHomeKey
          (merger.formatScalarLine evolveHomeKey team))

/-- `settled_manifest`: the settling over bytes, where every side is text. -/
def settledManifest (base local_ upstream : Option Bytes) : Option Bytes := do
  let base ←
    match base with
    | some bytes => (fromUtf8 bytes).map some
    | none => some none
  let local_ ← local_.bind fromUtf8
  let upstream ← upstream.bind fromUtf8
  (merger.settleEvolveHomeClaim base local_ upstream).map toUtf8

theorem settledManifest_of_same (local_ upstream : Option Bytes) :
    merger.settledManifest local_ local_ upstream = none := by
  cases local_ with
  | none => rfl
  | some bytes =>
      cases isText : fromUtf8 bytes with
      | none => simp [settledManifest, isText]
      | some text =>
          cases isUpstream : upstream.bind fromUtf8 with
          | none => simp [settledManifest, isText, isUpstream]
          | some upstreamText =>
              have unsettled : merger.settleEvolveHomeClaim (some text) text upstreamText = none := by
                cases isTeam : merger.evolveHome upstreamText with
                | none => simp [settleEvolveHomeClaim, isTeam]
                | some team =>
                    cases isClaim : merger.declaredEvolveHome text with
                    | none => simp [settleEvolveHomeClaim, isTeam, isClaim]
                    | some claim => simp [settleEvolveHomeClaim, isTeam, isClaim]
              simp [settledManifest, isText, isUpstream, unsettled]

theorem settledManifest_of_removed (base local_ : Option Bytes) :
    merger.settledManifest base local_ none = none := by
  cases base with
  | none => cases isText : local_.bind fromUtf8 <;> simp [settledManifest, isText]
  | some base =>
      cases isBase : fromUtf8 base with
      | none => simp [settledManifest, isBase]
      | some text => cases isText : local_.bind fromUtf8 <;> simp [settledManifest, isBase, isText]

theorem mergeFile_of_unchanged (base local_ : Option Bytes) :
    merger.mergeFile base local_ base = .converged := by
  unfold mergeFile
  split
  · rfl
  · rw [if_pos rfl]

theorem mergeFile_of_same {base upstream : Option Bytes} (changed : upstream ≠ base) :
    merger.mergeFile base base upstream = upstream.elim .delete .apply := by
  unfold mergeFile
  rw [if_neg fun same => changed same.symm, if_neg changed, if_pos rfl]
  cases upstream <;> rfl

/-- Both sides changed: a file is never deleted, and agrees only when both sides
do. -/
theorem mergeFile_of_changed {base local_ upstream : Option Bytes}
    (localChanged : local_ ≠ base) (upstreamChanged : upstream ≠ base) :
    (local_ = upstream ∧ merger.mergeFile base local_ upstream = .converged) ∨
      (local_ ≠ upstream ∧ ((∃ bytes, merger.mergeFile base local_ upstream = .apply bytes) ∨
        ∃ kind, merger.mergeFile base local_ upstream = .conflict kind)) := by
  by_cases agree : local_ = upstream
  · refine .inl ⟨agree, ?_⟩
    unfold mergeFile
    rw [if_pos agree]
  · refine .inr ⟨agree, ?_⟩
    have attempted : ∀ ancestor local_ upstream kind,
        (∃ bytes, merger.attemptTextMerge ancestor local_ upstream kind = .apply bytes) ∨
          ∃ kind', merger.attemptTextMerge ancestor local_ upstream kind = .conflict kind' := by
      intro ancestor local_ upstream kind
      unfold attemptTextMerge
      split
      · split
        · exact .inl ⟨_, rfl⟩
        · exact .inr ⟨_, rfl⟩
      · split
        · exact .inl ⟨_, rfl⟩
        · exact .inr ⟨_, rfl⟩
      · exact .inr ⟨_, rfl⟩
    unfold mergeFile
    rw [if_neg agree, if_neg upstreamChanged, if_neg localChanged]
    split
    · exact .inr ⟨_, rfl⟩
    · exact .inr ⟨_, rfl⟩
    · exact attempted _ _ _ _
    · exact attempted _ _ _ _
    · exact absurd rfl localChanged
    · exact absurd rfl upstreamChanged
    · exact absurd rfl agree

end Merger

/-- What upstream did to a path: its new content, or its removal. -/
structure UpstreamEdit where
  path : Path
  content : Option Bytes
  deriving DecidableEq

/-- `removals_first`. -/
def removalsFirst (edits : List UpstreamEdit) : List UpstreamEdit :=
  edits.filter (fun edit => edit.content.isNone) ++
    edits.filter fun edit => edit.content.isSome

/-- `is_three_way_merge`. -/
def isThreeWayMerge (base local_ upstream : Option Bytes) : Bool :=
  local_.isSome && upstream.isSome && local_ ≠ base && upstream ≠ base

/-- What `write_pulled_file` leaves on disk. -/
def asPulled (path : Path) (content : Bytes) : Bytes :=
  match fromUtf8 content with
  | some text => if isMarkdown path then toUtf8 (toLf text) else content
  | none => content

/-- `stamp`. -/
def stamp (sha256Hex : Bytes → Sha) (content : Bytes) : BaseStamp :=
  ⟨sha256Hex content, content.length⟩

/-- `lf_digest`. -/
def lfDigest (sha256Hex : Bytes → Sha) (path : Path) (content : Bytes) : Option Sha :=
  if isMarkdown path then
    (fromUtf8 content).bind fun text =>
      if toUtf8 (toLf text) ≠ content then some (sha256Hex (toUtf8 (toLf text))) else none
  else none

namespace OriginState

/-- `OriginState::record_base`. -/
def recordBase (sha256Hex : Bytes → Sha) (state : OriginState) (path : Path)
    (content : Bytes) : OriginState :=
  { state with
    files := state.files.insert path (stamp sha256Hex content)
    lfDigests :=
      match lfDigest sha256Hex path content with
      | some digest => state.lfDigests.insert path digest
      | none => state.lfDigests.erase path }

/-- `OriginState::forget_base`. -/
def forgetBase (state : OriginState) (path : Path) : OriginState :=
  { state with files := state.files.erase path, lfDigests := state.lfDigests.erase path }

end OriginState

/-- `proposal_override_applies`. -/
def proposalOverrideApplies (sha256Hex : Bytes → Sha) (merged : List Proposal) (path : Path)
    (local_ : Option Bytes) : Bool :=
  match local_ with
  | none => false
  | some bytes => merged.any fun proposal => proposal.files.any fun file =>
      file.path = path && file.sha256 = some (sha256Hex bytes)

/-- The two sides a conflict keeps: the base before the pull, and upstream. -/
abbrev ConflictFiles := Option Bytes × Option Bytes

/-- A pull up to its merge loop: the state and the base copies it starts from,
the commit it goes to and the proposals that merged. -/
structure Pull (Value : Type) where
  merger : Merger Value
  sha256Hex : Bytes → Sha
  /-- `new_conflict_id`, which is random. -/
  newConflictId : List Conflict → Nat
  state : OriginState
  copies : Tree
  mergedToConsume : List Proposal
  head : Sha
  newEtag : Option String

/-- The merge loop as it goes: the working tree and the conflicts. -/
structure MergeRun where
  tree : Tree
  conflicts : List Conflict
  conflictFiles : AList fun _ : Nat => ConflictFiles
  applied : List Path
  merged : List Path
  newConflicts : List Conflict

/-- What the loop does with a path. -/
inductive Fate where
  | kept
  | written (content : Bytes) (merged : Bool)
  | removed
  | conflict (kind : ConflictKind)
  deriving DecidableEq

namespace Pull

variable {Value : Type} [DecidableEq Value] (pull : Pull Value)

/-- The base copy of a path the base lists. -/
def baseOf (path : Path) : Option Bytes :=
  if (pull.state.files.lookup path).isSome then pull.copies.lookup path else none

/-- `local_is_base_as_lf`. -/
def localIsBaseAsLf (path : Path) (local_ : Bytes) : Bool :=
  match pull.state.files.lookup path with
  | none => false
  | some stamp =>
      let lf := pull.state.lfDigests.lookup path
      sameAsBase stamp lf local_.length (pull.sha256Hex local_) ||
        (lf.isNone && matchesBaseAsLf pull.sha256Hex pull.copies path stamp local_)

/-- What a path is merged against: the base as LF is the untouched base. -/
def mergeBase (path : Path) (local_ upstream : Option Bytes) : Option Bytes :=
  match pull.baseOf path, local_ with
  | some base, some local_ =>
      if local_ ≠ base && upstream ≠ some base && pull.localIsBaseAsLf path local_
      then some local_ else some base
  | base, _ => base

def manifestFileName : Path := "MANIFEST.md".toList

/-- The local MANIFEST with the team's home in place of its claim. -/
def settled (path : Path) (local_ upstream : Option Bytes) : Option Bytes :=
  if path = manifestFileName then
    pull.merger.settledManifest (pull.mergeBase path local_ upstream) local_ upstream
  else none

/-- What becomes of an edited path with this content on disk. -/
def fate (local_ : Option Bytes) (edit : UpstreamEdit) : Fate :=
  if isIndexPath edit.path then .kept
  else if proposalOverrideApplies pull.sha256Hex pull.mergedToConsume edit.path local_ then
    match edit.content with
    | some content => .written content false
    | none => .removed
  else
    let base := pull.mergeBase edit.path local_ edit.content
    let settled := pull.settled edit.path local_ edit.content
    let localForMerge := settled.or local_
    match pull.merger.mergeFile base localForMerge edit.content with
    | .apply content => .written content (isThreeWayMerge base localForMerge edit.content)
    | .delete => .removed
    | .converged =>
        match settled with
        | some content => .written content false
        | none => .kept
    | .conflict kind => .conflict kind

/-- The record of a conflict, unless it is recorded already. -/
def recordConflict (run : MergeRun) (edit : UpstreamEdit) (kind : ConflictKind) : MergeRun :=
  if run.conflicts.any fun conflict =>
      conflict.path = edit.path && conflict.upstreamCommit = pull.head
  then run
  else
    let conflict : Conflict :=
      { id := pull.newConflictId run.conflicts
        path := edit.path
        kind := kind
        baseCommit := pull.state.baseCommit
        upstreamCommit := pull.head }
    { run with
      conflicts := run.conflicts ++ [conflict]
      conflictFiles := run.conflictFiles.insert conflict.id (pull.baseOf edit.path, edit.content)
      newConflicts := run.newConflicts ++ [conflict] }

/-- One turn of the merge loop. -/
def mergeStep (run : MergeRun) (edit : UpstreamEdit) : MergeRun :=
  match pull.fate (run.tree.lookup edit.path) edit with
  | .kept => run
  | .written content merged =>
      { run with
        tree := run.tree.insert edit.path (asPulled edit.path content)
        applied := run.applied ++ [edit.path]
        merged := if merged then run.merged ++ [edit.path] else run.merged }
  | .removed =>
      { run with
        tree := run.tree.erase edit.path
        applied := run.applied ++ [edit.path] }
  | .conflict kind => pull.recordConflict run edit kind

/-- The base after one edit: its copies and its records. -/
def advanceStep (base : Tree × OriginState) (edit : UpstreamEdit) : Tree × OriginState :=
  match edit.content with
  | some content =>
      (base.1.insert edit.path content, base.2.recordBase pull.sha256Hex edit.path content)
  | none => (base.1.erase edit.path, base.2.forgetBase edit.path)

/-- What a pull leaves. -/
structure Pulled where
  run : MergeRun
  copies : Tree
  state : OriginState

/-- The merge loop from a working tree and the recorded conflict copies. -/
def mergeLoop (tree : Tree) (conflictFiles : AList fun _ : Nat => ConflictFiles)
    (edits : List UpstreamEdit) : MergeRun :=
  (removalsFirst edits).foldl pull.mergeStep
    { tree := tree
      conflicts := pull.state.conflicts
      conflictFiles := conflictFiles
      applied := []
      merged := []
      newConflicts := [] }

/-- The merge loop and the base advance of `pull_with`. -/
def pulled (tree : Tree) (conflictFiles : AList fun _ : Nat => ConflictFiles)
    (edits : List UpstreamEdit) : Pulled :=
  let run := pull.mergeLoop tree conflictFiles edits
  let base := (removalsFirst edits).foldl pull.advanceStep
    (pull.copies, { pull.state with conflicts := run.conflicts })
  { run := run
    copies := base.1
    state := { base.2 with baseCommit := pull.head, refEtag := pull.newEtag } }

end Pull

end Crystalline.Remote
