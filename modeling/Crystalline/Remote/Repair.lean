import Crystalline.Remote.Share

/-!
# The repair of a chain

A chain with a record that is no longer open is dissolved, replayed, retargeted
and linked anew around the hole; one that only stands on the wrong commits is
replayed from the break.
-/

namespace Crystalline.Remote

open Programs

/-- `RepairOutcome`. -/
structure RepairOutcome where
  repaired : Bool
  restacked : Option Nat
  deriving DecidableEq

/-- What a repair reads off the chain: the first open layer above a hole with
the recorded head below it, and the requests to point at another branch. -/
structure RepairPlan where
  survivor : Option (Nat × Option Sha)
  retargets : List (Nat × String)
  deriving DecidableEq

/-- The walk that plans a repair, from the record at an index. -/
def planFrom (trunk : String) (index : Nat) (below : Option Proposal) (afterHole : Bool)
    (plan : RepairPlan) : List Proposal → RepairPlan
  | [] => plan
  | layer :: layers =>
      if layer.isOpen then
        let plan := if afterHole then
            { survivor := plan.survivor.or (some (index, below.bind Proposal.headCommit))
              retargets := plan.retargets ++
                [(layer.number, (below.map Proposal.branch).getD trunk)] }
          else plan
        planFrom trunk (index + 1) (some layer) false plan layers
      else planFrom trunk (index + 1) below true plan layers

/-- A record that a repair moves to history. -/
def Proposal.hasLeft (layer : Proposal) : Bool :=
  layer.status = .withdrawn || layer.status = .declined

namespace OriginState

variable (state : OriginState)

def repairPlan (trunk : String) : RepairPlan :=
  planFrom trunk 0 none false ⟨none, []⟩ state.proposals

/-- Whether every record is open. -/
def isIntact : Bool := state.proposals.all Proposal.isOpen

/-- The withdrawn and declined records leave the chain for history, their
branches queued. -/
def settleHoles : OriginState :=
  let settled := state.proposals.filter Proposal.hasLeft
  let queued := settled.foldl (fun state layer =>
      state.queueRetired layer (if layer.status = .withdrawn then .withdrawn else .declined)
        (state.mergedInto layer.number)) state
  settled.foldl pushHistory
    { queued with proposals := queued.proposals.filter fun layer => !layer.hasLeft }

end OriginState

/-- The layers a plan replays are replayable and ours, or the repair is refused. -/
def ensurePlanReady (state : OriginState) (plan : RepairPlan) : Operation Unit :=
  match plan.survivor with
  | none => pure ()
  | some (index, _) => do
      match ← ensureCascadeReady state index with
      | some above => .stop (upperLayerDiverged above)
      | none => pure ()

/-- The dissolve of the recorded stack, if there is one. -/
def dissolveRecorded (state : OriginState) : Operation OriginState :=
  match state.stackNumber with
  | none => pure state
  | some stack => do
      let dissolved : Operation OriginState := do
        let state := { state with stackNumber := none }
        perform (.save state)
        return state
      match ← attempt (.dissolveStack stack) with
      | .ok _ => dissolved
      | .error error => if alreadyDissolved error then dissolved else .stop error

/-- The cascade of a plan. -/
def replayPlan (spec : OriginSpec) (state : OriginState) (plan : RepairPlan) :
    Operation OriginState :=
  match plan.survivor with
  | none => pure state
  | some (index, parent) =>
      cascadeReplays spec.subpath state index (parent.getD state.baseCommit)

/-- The stack created anew over the open layers, where there are two or more. -/
def recreateStack (state : OriginState) : Operation (OriginState × Option Nat) := do
  let opened := state.openLayers.map Proposal.number
  if 2 ≤ opened.length then
    match ← attempt (.createStack opened) with
    | .ok info =>
        return ({ state with stackNumber := some info.number, stackLinkPending := false },
          some info.number)
    | .error _ => return ({ state with stackNumber := none, stackLinkPending := true }, none)
  else return ({ state with stackNumber := none, stackLinkPending := false }, none)

/-- The short repair: every record is open, and the layers from the break up are
replayed. -/
def rebaseFrom (spec : OriginSpec) (state : OriginState) (index : Nat) (parent : Sha) :
    Operation (RepairOutcome × OriginState) := do
  match ← ensureCascadeReady state index with
  | some above => .stop (upperLayerDiverged above)
  | none =>
      let state ← cascadeReplays spec.subpath state index parent
      let state := { state with
        repairPending := false
        stackLinkPending := state.stackNumber.isNone || state.stackLinkPending }
      perform (.save state)
      return (⟨true, none⟩, state)

/-- Point a request at another branch. -/
def retargetRequest (wanted : Nat × String) : Operation Unit :=
  perform (.updateProposal wanted.1 none none (some wanted.2))

/-- The long repair: dissolve, replay, retarget, settle, recreate. -/
def rebuildChain (spec : OriginSpec) (state : OriginState) :
    Operation (RepairOutcome × OriginState) := do
  let plan := state.repairPlan spec.branch
  ensurePlanReady state plan
  let stack := state.stackNumber
  let state ← dissolveRecorded state
  let state ← replayPlan spec state plan
  let _ ← Program.forEach (fun _ wanted => retargetRequest wanted) () plan.retargets
  let (state, restacked) ← recreateStack state.settleHoles
  let state := { state with repairPending := false }
  perform (.save state)
  let repaired := stack.isSome || plan.survivor.isSome || !plan.retargets.isEmpty ||
    restacked.isSome
  return (⟨repaired, restacked⟩, state)

/-- `repair_chain`. -/
def repairChain (spec : OriginSpec) (state : OriginState) :
    Operation (RepairOutcome × OriginState) :=
  match state.mergedLayerBlockingRepair with
  | some number => .stop (mergedLayerBlocksRepair number)
  | none =>
      match if state.isIntact then state.firstMisalignedLayer else none with
      | some (index, parent) => rebaseFrom spec state index parent
      | none => rebuildChain spec state

/-- What a live request makes of the record while a repair is pending. -/
def settleLive (carried : OriginState × Bool) (number : Nat) : Operation (OriginState × Bool) := do
  let settle (status : ProposalStatus) : OriginState × Bool :=
    (carried.1.setLayer (carried.1.proposals.findIdx fun layer => layer.number = number)
      fun layer => layer.settledAs status, true)
  match ← perform (.proposalState number) with
  | .opened => return carried
  | .merged => return settle .merged
  | .declined => return settle .withdrawn

/-- `finish_pending_repair`. -/
def finishPendingRepair (spec : OriginSpec) (state : OriginState) :
    Operation (RepairOutcome × OriginState) := do
  if !state.repairPending && !state.stackShapeBroken then return (⟨false, none⟩, state)
  if state.repairPending then
    let (settled, dirty) ← Program.forEach settleLive (state, false)
      (state.openLayers.map Proposal.number)
    if dirty then perform (.save settled)
    repairChain spec settled
  else repairChain spec state

end Crystalline.Remote
