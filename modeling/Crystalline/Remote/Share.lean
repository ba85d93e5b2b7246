import Crystalline.Remote.Collect

/-!
# Sharing onto a chain of proposals

An open proposal is updated, a layer stacked on top of the chain, or a layer of
the chain amended and the layers above it replayed.  A push is announced in the
saved record before the branch moves, so that one cut in half is known again.
-/

namespace Crystalline.Remote

open Programs Text

/-- The changes and the place in the chain a share reports. -/
structure ProposeReport where
  url : String
  number : Nat
  branch : String
  added : List Path
  updated : List Path
  deleted : List Path
  skippedLarge : List (Path × Nat)
  stackNumber : Option Nat
  stackPosition : Option (Nat × Nat)
  deriving DecidableEq

/-- `ProposeOutcome`, of a domain that shares by proposal. -/
inductive ProposeOutcome where
  | proposed (report : ProposeReport)
  | updated (report : ProposeReport)
  | nothingToShare (skippedLarge : List (Path × Nat))
  | proposalDiverged (number : Nat) (url branch : String)
  deriving DecidableEq

def ProposeOutcome.divergedAt (layer : Proposal) : ProposeOutcome :=
  .proposalDiverged layer.number layer.url layer.branch

section Stacks

/-- `stack_no_longer_matches`. -/
def stackNoLongerMatches : RemoteError → Bool
  | .api 404 _ => true
  | .api 422 message => contains (message.toList.map Char.toLower) "form a stack".toList
  | _ => false

/-- The answers to a dissolve that mean the stack is gone already. -/
def alreadyDissolved : RemoteError → Bool
  | .api 404 _ | .stacksUnsupported => true
  | _ => false

/-- `rebuild_stack`. -/
def rebuildStack (stack : Nat) (opened : List Nat) : Operation (Except RemoteError Nat) := do
  let recreate : Operation (Except RemoteError Nat) := do
    return (← attempt (.createStack opened)).map StackInfo.number
  match ← attempt (.dissolveStack stack) with
  | .ok _ => recreate
  | .error error => if alreadyDissolved error then recreate else pure (.error error)

end Stacks

section Push

/-- A record that announces the push of a commit. -/
def Proposal.announcing (layer : Proposal) (commit : Sha) : Proposal :=
  { layer with pendingHeadCommit := some commit }

/-- A record whose push is finished. -/
def Proposal.pushed (layer : Proposal) (commit base : Sha) : Proposal :=
  { layer with headCommit := some commit, pendingHeadCommit := none, baseCommit := some base }

/-- The saved announcement of a push. -/
def announce (state : OriginState) (index : Nat) (commit : Sha) : Operation OriginState := do
  let state := state.setLayer index fun layer => layer.announcing commit
  perform (.save state)
  return state

/-- What a finished update or amend makes of a record. -/
def Share.amended (share : Share) (collected : CollectedChanges) (commit base : Sha)
    (layer : Proposal) : Proposal :=
  { layer.pushed commit base with
    files := collected.files
    title := share.title.getD layer.title
    authorLogin := layer.authorLogin.or share.authorLogin }

/-- `update_open_proposal`. -/
def updateOpenProposal (share : Share) (state : OriginState) (layer : Proposal)
    (liveHead : Sha) (local_ : LocalChanges) : Operation ProposeOutcome := do
  let collected ← share.collectChanges local_
  -- A merge commit once the base moved, so the request's merge base moves too.
  let parents :=
    if layer.baseCommit = some state.baseCommit then [liveHead] else [liveHead, state.baseCommit]
  let tree ← perform (.createTree state.baseCommit collected.writes)
  let commit ← perform (.createCommit (share.effectiveTitle collected) tree parents)
  let index := state.proposals.findIdx fun record => record.number = layer.number
  let state ← announce state index commit
  perform (.updateBranch layer.branch commit false)
  perform (.updateProposal layer.number share.title (some (share.body collected)) none)
  let state := state.setLayer index (share.amended collected commit state.baseCommit)
  perform (.save state)
  return .updated {
    url := layer.url
    number := layer.number
    branch := layer.branch
    added := collected.added
    updated := collected.updated
    deleted := collected.deleted
    skippedLarge := local_.skippedLarge
    stackNumber := none
    stackPosition := none }

/-- The link of a layer just stacked on top of another. -/
def linkLayer (state : OriginState) (below layer : Nat) : Operation (Except RemoteError Nat) := do
  match state.stackNumber with
  | none => return (← attempt (.createStack [below, layer])).map StackInfo.number
  | some number =>
      match ← attempt (.extendStack number [layer]) with
      | .ok _ => pure (.ok number)
      | .error error =>
          if stackNoLongerMatches error then
            rebuildStack number (state.openLayers.map Proposal.number)
          else pure (.error error)

/-- `stack_new_layer`. -/
def stackNewLayer (share : Share) (state : OriginState) (top : Proposal) (topHead : Sha)
    (local_ : LocalChanges) : Operation ProposeOutcome := do
  let collected ← share.collectChanges local_
  let title := share.effectiveTitle collected
  let tree ← perform (.createTree topHead collected.writes)
  let commit ← perform (.createCommit title tree [topHead])
  perform (.createBranch share.branchName commit)
  let handle ← perform (.createProposal ⟨title, share.body collected, share.branchName, top.branch⟩)
  let layer : Proposal := {
    number := handle.number
    url := handle.url
    branch := share.branchName
    title := title
    status := .opened
    files := collected.files
    headCommit := some commit
    pendingHeadCommit := none
    -- A layer's base is the layer below it, never the trunk.
    baseCommit := some topHead
    authorLogin := share.authorLogin }
  let state := { state with proposals := state.proposals ++ [layer] }
  let state := match ← linkLayer state top.number handle.number with
    | .ok number => { state with stackNumber := some number, stackLinkPending := false }
    | .error _ => { state with stackLinkPending := true }
  perform (.save state)
  return .proposed {
    url := handle.url
    number := handle.number
    branch := share.branchName
    added := collected.added
    updated := collected.updated
    deleted := collected.deleted
    skippedLarge := local_.skippedLarge
    stackNumber := state.stackNumber
    stackPosition := some (state.openPosition handle.number) }

end Push

section Cascade

/-- The first of the layers whose branch carries commits of somebody else. -/
def firstDiverged : List Proposal → Operation (Option Proposal)
  | [] => pure none
  | layer :: layers => do
      match ← perform (.branchRef layer.branch) with
      | some live => if headIsOurs layer live then firstDiverged layers else pure (some layer)
      | none => firstDiverged layers

/-- `ensure_cascade_ready`. -/
def ensureCascadeReady (state : OriginState) (index : Nat) : Operation (Option Proposal) := do
  Program.orStop (state.ensureReplayable index)
  firstDiverged (state.openFrom index)

/-- The writes that rebuild a layer over the tip below it; a deletion is written
only of what is there. -/
def replayWrites (sub : Option Text) (below : Snapshot) (layer : Proposal) :
    Except RemoteError (List TreeWrite) := do
  let writes ← layer.files.mapM fun file =>
    let path := toRepoRelative file.path sub
    match file.change, file.blobSha with
    | .deleted, _ =>
        .ok (if (below.lookup file.path).isSome then some ⟨path, none⟩ else none)
    | _, some blobSha => .ok (some ⟨path, some blobSha⟩)
    | _, none => .error (unreplayableLayer layer.number)
  return writes.reduceOption

/-- One turn of `cascade_replays`: a layer rebuilt on a head. -/
def replayLayer (sub : Option Text) (carried : OriginState × Sha) (index : Nat) :
    Operation (OriginState × Sha) :=
  let (state, parent) := carried
  match state.proposals[index]? with
  | none => pure carried
  | some layer =>
      if !layer.isOpen then pure carried
      else do
        let writes ← Program.orStop (replayWrites sub (state.tipBelowLayer index) layer)
        let tree ← perform (.createTree parent writes)
        let commit ← perform (.createCommit layer.title tree [parent])
        let state ← announce state index commit
        perform (.updateBranch layer.branch commit true)
        let state := state.setLayer index fun record => record.pushed commit parent
        perform (.save state)
        return (state, commit)

/-- `cascade_replays`. -/
def cascadeReplays (sub : Option Text) (state : OriginState) (index : Nat) (parent : Sha) :
    Operation OriginState := do
  let carried ← Program.forEach (replayLayer sub) (state, parent)
    (List.range' index (state.proposals.length - index))
  return carried.1

end Cascade

section Amend

/-- The paths the open layers above an index propose. -/
def OriginState.ownedAbove (state : OriginState) (index : Nat) : List Path :=
  (state.openFrom (index + 1)).flatMap fun layer => layer.files.map ProposedFile.path

/-- The head an amended layer stands on. -/
def OriginState.headBelow (state : OriginState) (index : Nat) : Sha :=
  ((state.openBelow index).getLast?.bind Proposal.headCommit).getD state.baseCommit

/-- `amend_layer`. -/
def amendLayer (share : Share) (state : OriginState) (index : Nat) (layer : Proposal) :
    Operation ProposeOutcome := do
  match ← ensureCascadeReady state (index + 1) with
  | some above => return .divergedAt above
  | none =>
      match ← perform (.branchRef layer.branch) with
      | none => .stop (branchGone layer)
      | some liveHead =>
          if !headIsOurs layer liveHead then return .divergedAt layer
          let fresh ← Program.orStop (share.selected state state.effectiveTipFiles)
          if fresh.changes.isEmpty then return .nothingToShare fresh.skippedLarge
          let collected ← share.collectAmendChanges layer (state.tipBelowLayer index)
            (state.ownedAbove index) fresh
          let belowHead := state.headBelow index
          let tree ← perform (.createTree belowHead collected.writes)
          let commit ← perform (.createCommit (share.effectiveTitle collected) tree [liveHead])
          let state ← announce state index commit
          perform (.updateBranch layer.branch commit false)
          perform (.updateProposal layer.number share.title (some (share.body collected)) none)
          let state := state.setLayer index (share.amended collected commit belowHead)
          perform (.save state)
          let state ← cascadeReplays share.spec.subpath state index.succ commit
          return .updated {
            url := layer.url
            number := layer.number
            branch := layer.branch
            added := collected.added
            updated := collected.updated
            deleted := collected.deleted
            skippedLarge := fresh.skippedLarge
            stackNumber := state.stackNumber
            stackPosition := some (state.openPosition layer.number) }

end Amend

end Crystalline.Remote
