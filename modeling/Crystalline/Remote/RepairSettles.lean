import Crystalline.Remote.Replays

/-!
# A successful repair settles the chain

Whatever the forge answers, a repair that ends well leaves no withdrawn or
declined record, keeps the open layers and what they propose, and leaves every
replayed layer on the one below it.  The shape is whole again where the layers
below the replay stood whole before.
-/

namespace Crystalline.Remote

open Programs

section Chains

variable {layers low high : List Proposal} {layer : Proposal} {parent : Sha}

theorem underTop_concat (layers : List Proposal) (layer : Proposal) :
    underTop (layers ++ [layer]) = if layer.isOpen then layers else underTop layers := by
  unfold underTop
  rw [List.reverse_append, List.reverse_singleton, List.singleton_append]
  cases opened : layer.isOpen with
  | true => simp [opened]
  | false => simp [opened]

/-- No merged record lies under an open layer. -/
def Unblocked (layers : List Proposal) : Prop :=
  layers.Pairwise fun below above => above.isOpen = true → below.status ≠ .merged

/-- The open layers come first. -/
def OpenFirst (layers : List Proposal) : Prop :=
  layers.Pairwise fun below above => above.isOpen = true → below.isOpen = true

theorem unblocked_iff (state : OriginState) :
    state.mergedLayerBlockingRepair = none ↔ Unblocked state.proposals := by
  unfold OriginState.mergedLayerBlockingRepair OriginState.underAnOpenLayer
  rw [Option.map_eq_none_iff, List.find?_eq_none]
  generalize state.proposals = layers
  induction layers using List.reverseRecOn with
  | nil => simp [underTop, Unblocked]
  | append_singleton layers layer ih =>
      unfold Unblocked at ih ⊢
      rw [underTop_concat, List.pairwise_append]
      cases opened : layer.isOpen with
      | false =>
          simp only [Bool.false_eq_true, if_false, ih, List.mem_singleton, forall_eq, opened,
            false_implies, implies_true, List.pairwise_singleton, and_true]
      | true =>
          simp only [if_true, decide_eq_true_eq, List.pairwise_singleton, List.mem_singleton,
            forall_eq, opened, forall_const, true_and]
          constructor
          · intro unmerged
            refine ⟨?_, unmerged⟩
            rw [List.pairwise_iff_forall_sublist]
            intro below above sublist _
            exact unmerged below (sublist.subset (by simp))
          · exact And.right

theorem OpenFirst.unblocked (first : OpenFirst layers) : Unblocked layers := by
  apply first.imp
  intro below above holds opened merged
  have isOpen := holds opened
  rw [Proposal.isOpen, merged] at isOpen
  cases isOpen

theorem OpenFirst.bottom (first : OpenFirst layers) {bottom : Proposal} {rest : List Proposal}
    (opened : layers.filter Proposal.isOpen = bottom :: rest) :
    ∃ above, layers = bottom :: above := by
  cases layers with
  | nil => cases opened
  | cons layer layers =>
      cases isOpen : layer.isOpen with
      | true =>
          rw [List.filter_cons_of_pos isOpen] at opened
          cases opened
          exact ⟨layers, rfl⟩
      | false =>
          rw [List.filter_cons_of_neg (by simp [isOpen])] at opened
          have member : bottom ∈ layers.filter Proposal.isOpen := by
            rw [opened]
            exact List.mem_cons_self
          obtain ⟨inChain, isBottom⟩ := List.mem_filter.mp member
          have below := (List.pairwise_cons.mp first).1 bottom inChain isBottom
          rw [isOpen] at below
          cases below

theorem anyMisaligned_cons_cons (below above : Proposal) (layers : List Proposal) :
    anyMisaligned (below :: above :: layers) =
      (decide (above.baseCommit ≠ below.headCommit) || anyMisaligned (above :: layers)) := rfl

theorem Stacked.aligned (stacked : Stacked parent layers) : anyMisaligned layers = false := by
  induction stacked with
  | nil => rfl
  | cons base head _ rest ih =>
      cases rest with
      | nil => rfl
      | cons nextBase _ _ _ =>
          rw [anyMisaligned_cons_cons, ih, nextBase, head]
          simp

/-- Layers replayed above others are aligned with them where the topmost of
those has the head they were replayed on. -/
theorem anyMisaligned_append (stacked : Stacked parent high) (nonempty : high ≠ []) :
    anyMisaligned (low ++ high) =
      (anyMisaligned low || !low.getLast?.all fun top => top.headCommit = some parent) := by
  induction low with
  | nil =>
      rw [List.nil_append, stacked.aligned]
      rfl
  | cons bottom low ih =>
      cases low with
      | nil =>
          cases stacked with
          | nil => exact absurd rfl nonempty
          | @cons _ commit layer layers base head settled rest =>
              have aligned := (Stacked.cons base head settled rest).aligned
              rw [List.singleton_append, anyMisaligned_cons_cons, aligned, base]
              simp [anyMisaligned, eq_comm]
      | cons next low =>
          rw [List.cons_append, List.cons_append, anyMisaligned_cons_cons, ← List.cons_append, ih,
            anyMisaligned_cons_cons, List.getLast?_cons_cons, Bool.or_assoc]

end Chains

section Plans

variable {layers : List Proposal} {index : Nat} {below : Option Proposal} {parent : Sha}

/-- The open layer next below a place in the chain. -/
def nextBelow (below : Option Proposal) (front : List Proposal) : Option Proposal :=
  ((front.filter Proposal.isOpen).getLast?).or below

theorem nextBelow_cons (layer : Proposal) (front : List Proposal) :
    nextBelow below (layer :: front) =
      nextBelow (if layer.isOpen then some layer else below) front := by
  unfold nextBelow
  cases opened : layer.isOpen with
  | false => rw [List.filter_cons_of_neg (by simp [opened])]; rfl
  | true =>
      rw [List.filter_cons_of_pos opened, List.getLast?_cons]
      cases (front.filter Proposal.isOpen).getLast? <;> rfl

/-- The break a walk finds: an open layer, and the recorded head of the open
layer next below it. -/
theorem misalignedFrom_eq_some {start : Nat × Sha}
    (found : misalignedFrom index below layers = some start) :
    ∃ front layer back, layers = front ++ layer :: back ∧ start.1 = index + front.length ∧
      layer.isOpen = true ∧
        (nextBelow below front).bind Proposal.headCommit = some start.2 := by
  induction layers generalizing index below with
  | nil => cases found
  | cons layer layers ih =>
      have further : ∀ {next}, (next = if layer.isOpen then some layer else below) →
          misalignedFrom (index + 1) next layers = some start →
          ∃ front other back, layer :: layers = front ++ other :: back ∧
            start.1 = index + front.length ∧ other.isOpen = true ∧
              (nextBelow below front).bind Proposal.headCommit = some start.2 := by
        intro next isNext found
        obtain ⟨front, other, back, chain, place, opened, head⟩ := ih found
        refine ⟨layer :: front, other, back, by rw [chain]; rfl, ?_, opened, ?_⟩
        · rw [place, List.length_cons]
          omega
        · rw [nextBelow_cons, ← isNext]
          exact head
      unfold misalignedFrom at found
      cases opened : layer.isOpen with
      | false =>
          rw [opened, if_neg Bool.false_ne_true] at found
          exact further (by rw [opened]; rfl) found
      | true =>
          rw [opened, if_pos rfl] at found
          cases head : below.bind Proposal.headCommit with
          | none =>
              rw [head] at found
              exact further (by rw [opened]; rfl) found
          | some parent =>
              rw [head] at found
              dsimp only at found
              split at found
              · cases found
                exact ⟨[], layer, layers, rfl, rfl, opened, by simpa [nextBelow] using head⟩
              · exact further (by rw [opened]; rfl) found

section

variable {trunk : String} {afterHole : Bool} {plan : RepairPlan}

theorem planFrom_kept (start : Nat × Option Sha) (held : plan.survivor = some start) :
    (planFrom trunk index below afterHole plan layers).survivor = some start := by
  induction layers generalizing index below afterHole plan with
  | nil => exact held
  | cons layer layers ih =>
      unfold planFrom
      split
      · apply ih
        split
        · rw [held]
          rfl
        · exact held
      · exact ih held

/-- The layer a plan starts to replay: the lowest open one above a hole, with the
recorded head of the open layer next below it. -/
theorem planFrom_survivor (fresh : plan.survivor = none) {start : Nat × Option Sha}
    (found : (planFrom trunk index below afterHole plan layers).survivor = some start) :
    ∃ front layer back, layers = front ++ layer :: back ∧ start.1 = index + front.length ∧
      layer.isOpen = true ∧
        start.2 = (nextBelow below front).bind Proposal.headCommit ∧
          front.filter Proposal.isOpen =
            if afterHole then [] else layers.takeWhile Proposal.isOpen := by
  induction layers generalizing index below afterHole with
  | nil =>
      rw [planFrom, fresh] at found
      cases found
  | cons layer layers ih =>
      unfold planFrom at found
      cases opened : layer.isOpen with
      | false =>
          rw [opened, if_neg Bool.false_ne_true] at found
          obtain ⟨front, other, back, chain, place, isOpen, head, alone⟩ := ih found
          refine ⟨layer :: front, other, back, by rw [chain]; rfl, ?_, isOpen, ?_, ?_⟩
          · rw [place, List.length_cons]
            omega
          · rw [nextBelow_cons, opened]
            exact head
          · rw [List.filter_cons_of_neg (by simp [opened]), alone,
              List.takeWhile_cons_of_neg (by simp [opened])]
            simp
      | true =>
          rw [opened, if_pos rfl] at found
          cases afterHole with
          | false =>
              obtain ⟨front, other, back, chain, place, isOpen, head, alone⟩ := ih found
              refine ⟨layer :: front, other, back, by rw [chain]; rfl, ?_, isOpen, ?_, ?_⟩
              · rw [place, List.length_cons]
                omega
              · rw [nextBelow_cons, opened]
                exact head
              · rw [List.filter_cons_of_pos opened, alone, if_neg Bool.false_ne_true,
                  if_neg Bool.false_ne_true, List.takeWhile_cons_of_pos opened]
          | true =>
              dsimp only at found
              rw [if_pos rfl, planFrom_kept (index, below.bind Proposal.headCommit)
                (by rw [fresh]; rfl)] at found
              cases found
              exact ⟨[], layer, layers, rfl, rfl, opened, rfl, rfl⟩

/-- A plan that replays nothing: no open layer stands above a hole. -/
theorem planFrom_none
    (found : (planFrom trunk index below afterHole plan layers).survivor = none) :
    layers.filter Proposal.isOpen =
      if afterHole then [] else layers.takeWhile Proposal.isOpen := by
  induction layers generalizing index below afterHole plan with
  | nil => cases afterHole <;> rfl
  | cons layer layers ih =>
      unfold planFrom at found
      cases opened : layer.isOpen with
      | false =>
          rw [opened, if_neg Bool.false_ne_true] at found
          rw [List.filter_cons_of_neg (by simp [opened]), ih found,
            List.takeWhile_cons_of_neg (by simp [opened])]
          simp
      | true =>
          rw [opened, if_pos rfl] at found
          cases afterHole with
          | false =>
              rw [List.filter_cons_of_pos opened, ih found, if_neg Bool.false_ne_true,
                if_neg Bool.false_ne_true, List.takeWhile_cons_of_pos opened]
          | true =>
              obtain ⟨start, kept⟩ : ∃ start, (plan.survivor.or
                  (some (index, below.bind Proposal.headCommit))) = some start := by
                cases plan.survivor with
                | none => exact ⟨_, rfl⟩
                | some start => exact ⟨start, rfl⟩
              dsimp only at found
              rw [if_pos rfl, planFrom_kept start kept] at found
              cases found

end

end Plans

section Settle

/-- Queuing the branches of records changes the queue only, and leaves each of
them in it. -/
theorem foldl_queueRetired (why : Proposal → RetireWhy) (onto : OriginState → Proposal → String)
    (settled : List Proposal) (state : OriginState) :
    ∃ queue, settled.foldl (fun state layer =>
        state.queueRetired layer (why layer) (onto state layer)) state =
          { state with retireQueue := queue } ∧
        (∀ entry ∈ state.retireQueue, entry ∈ queue) ∧
          ∀ layer ∈ settled, ∃ entry ∈ queue, entry.branch = layer.branch := by
  induction settled generalizing state with
  | nil => exact ⟨state.retireQueue, rfl, fun _ member => member, by simp⟩
  | cons layer settled ih =>
      have step : ∃ queue, state.queueRetired layer (why layer) (onto state layer) =
          { state with retireQueue := queue } ∧
            (∀ entry ∈ state.retireQueue, entry ∈ queue) ∧
              ∃ entry ∈ queue, entry.branch = layer.branch := by
        unfold OriginState.queueRetired
        split
        · rename_i queued
          obtain ⟨entry, member, same⟩ := List.any_eq_true.mp queued
          exact ⟨state.retireQueue, rfl, fun _ member => member, entry, member,
            of_decide_eq_true same⟩
        · exact ⟨_, rfl, fun _ member => List.mem_append_left _ member, _,
            List.mem_append_right _ (List.mem_singleton_self _), rfl⟩
      obtain ⟨queue, queued, kept, entry, member, same⟩ := step
      obtain ⟨last, all, keptAll, each⟩ := ih (state.queueRetired layer (why layer)
        (onto state layer))
      rw [queued] at all keptAll
      refine ⟨last, ?_, fun entry member => keptAll entry (kept entry member), ?_⟩
      · rw [List.foldl_cons, queued, all]
      · intro other otherMember
        rcases List.mem_cons.mp otherMember with rfl | later
        · exact ⟨entry, keptAll entry member, same⟩
        · exact each other later

theorem foldl_pushHistory (settled : List Proposal) (state : OriginState) :
    settled.foldl OriginState.pushHistory state =
      { state with history := if settled = [] then state.history
          else (settled.reverse ++ state.history).take historyCap } := by
  induction settled generalizing state with
  | nil => rfl
  | cons layer settled ih =>
      rw [List.foldl_cons, ih]
      unfold OriginState.pushHistory
      simp only [List.cons_ne_nil, if_false, List.reverse_cons, List.append_assoc,
        List.singleton_append]
      split
      · rename_i last
        rw [last]
        rfl
      · congr 1
        rw [List.take_append, List.take_append, List.take_take, Nat.min_eq_left (Nat.sub_le _ _)]

theorem settleHoles_eq (state : OriginState) :
    ∃ queue, state.settleHoles = { state with
        proposals := state.proposals.filter fun layer => !layer.hasLeft
        history := if state.proposals.filter Proposal.hasLeft = [] then state.history
          else ((state.proposals.filter Proposal.hasLeft).reverse ++ state.history).take historyCap
        retireQueue := queue } ∧
      ∀ layer ∈ state.proposals, layer.hasLeft = true →
        ∃ entry ∈ queue, entry.branch = layer.branch := by
  obtain ⟨queue, queued, -, each⟩ := foldl_queueRetired
    (fun layer => if layer.status = .withdrawn then .withdrawn else .declined)
    (fun state layer => state.mergedInto layer.number)
    (state.proposals.filter Proposal.hasLeft) state
  refine ⟨queue, ?_, fun layer member left => each layer (List.mem_filter.mpr ⟨member, left⟩)⟩
  unfold OriginState.settleHoles
  dsimp only
  rw [queued, foldl_pushHistory]

end Settle

section Shape

variable {layers replayed front back : List Proposal} {state left : OriginState} {parent : Sha}

theorem Unblocked.of_status (unblocked : Unblocked layers)
    (same : replayed.map Proposal.status = layers.map Proposal.status) : Unblocked replayed := by
  have onStatus : ∀ layers : List Proposal, Unblocked layers ↔
      (layers.map Proposal.status).Pairwise fun below above =>
        above = .opened → below ≠ .merged := by
    intro layers
    unfold Unblocked
    rw [List.pairwise_map]
    simp only [Proposal.isOpen, decide_eq_true_eq]
  rw [onStatus, same, ← onStatus]
  exact unblocked

theorem Unblocked.openFirst (unblocked : Unblocked layers) :
    OpenFirst (layers.filter fun layer => !layer.hasLeft) := by
  apply (unblocked.filter _).imp_of_mem
  intro below above belowMember _ unmerged opened
  have stays := (List.mem_filter.mp belowMember).2
  have notMerged := unmerged opened
  unfold Proposal.hasLeft at stays
  unfold Proposal.isOpen
  cases status : below.status with
  | opened => rfl
  | merged => exact absurd status notMerged
  | declined => simp [status] at stays
  | withdrawn => simp [status] at stays

theorem filter_isOpen_settled (layers : List Proposal) :
    (layers.filter fun layer => !layer.hasLeft).filter Proposal.isOpen =
      layers.filter Proposal.isOpen := by
  rw [List.filter_filter]
  apply List.filter_congr
  intro layer _
  cases opened : layer.isOpen with
  | false => rfl
  | true => rw [not_hasLeft_of_isOpen opened]; rfl

/-- With the open layers first, a recorded stack of two or more is broken where
its layers are misaligned. -/
theorem stackShapeBroken_eq (first : OpenFirst left.proposals)
    (two : left.stackNumber.isSome = true → 2 ≤ left.openLayers.length) :
    left.stackShapeBroken = (left.stackNumber.isSome && anyMisaligned left.openLayers) := by
  unfold OriginState.stackShapeBroken
  cases stack : left.stackNumber with
  | none => rfl
  | some number =>
      have atLeastTwo := two (by rw [stack]; rfl)
      rw [(unblocked_iff left).mpr first.unblocked]
      simp only [Option.isNone_some, Option.isSome_none, Bool.false_eq_true, if_false,
        Option.isSome_some, Bool.true_and]
      match opened : left.openLayers with
      | [] => simp [opened] at atLeastTwo
      | [_] => simp [opened] at atLeastTwo
      | bottom :: next :: layers =>
          obtain ⟨above, chain⟩ := first.bottom opened
          have noHole : left.holeBelow bottom = false := by
            simp [OriginState.holeBelow, chain]
          simp [noHole]

end Shape

namespace OriginState

variable (state : OriginState) (trunk : String)

/-- Where a repair starts to replay, and the head it starts from. -/
def replayStart : Option (Nat × Sha) :=
  match if state.isIntact then state.firstMisalignedLayer else none with
  | some start => some start
  | none => (state.repairPlan trunk).survivor.map fun start =>
      (start.1, start.2.getD state.baseCommit)

/-- The layers a repair leaves as they are: those below the first misaligned one
where every record is open, else those below the lowest hole. -/
def leftAlone : List Proposal :=
  if state.isIntact then
    match state.firstMisalignedLayer with
    | some (index, _) => state.proposals.take index
    | none => state.proposals
  else state.proposals.takeWhile Proposal.isOpen

/-- Whether a stack number stands after a repair, by whether the forge creates the
stack it is asked for. -/
def stackedAfter (accepted : Bool) : Bool :=
  if state.isIntact && state.firstMisalignedLayer.isSome then state.stackNumber.isSome
  else accepted && decide (2 ≤ state.openLayers.length)

end OriginState

/-- What a successful repair leaves of a chain. -/
structure RepairSettled (spec : OriginSpec) (state left : OriginState) : Prop where
  noneLeft : ∀ layer ∈ left.proposals, layer.hasLeft = false
  history : left.history =
    if state.proposals.filter Proposal.hasLeft = [] then state.history
    else ((state.proposals.filter Proposal.hasLeft).reverse ++ state.history).take historyCap
  queued : ∀ layer ∈ state.proposals, layer.hasLeft = true →
    ∃ entry ∈ left.retireQueue, entry.branch = layer.branch
  kept : left.openLayers.map Proposal.work = state.openLayers.map Proposal.work
  replayed : ∃ above, left.openLayers = state.leftAlone ++ above ∧
    Stacked (((state.leftAlone.getLast?).bind Proposal.headCommit).getD state.baseCommit) above
  openFirst : OpenFirst left.proposals
  two : left.stackNumber.isSome = true → 2 ≤ left.openLayers.length
  settled : left.repairPending = false

section Repair

variable {spec : OriginSpec} {state left : OriginState} {front back replayed : List Proposal}
  {parent : Sha} {trunk : String} {layer : Proposal}

theorem filter_isOpen_of_isIntact (intact : state.isIntact = true) :
    state.proposals.filter Proposal.isOpen = state.proposals :=
  List.filter_eq_self.mpr (List.all_eq_true.mp intact)

/-- A replay starts at the open layer above those left alone, on the recorded head
of the topmost of them, or else on the trunk. -/
theorem replayStart_eq_some {start : Nat × Sha} (starts : state.replayStart trunk = some start) :
    ∃ front layer back, state.proposals = front ++ layer :: back ∧ start.1 = front.length ∧
      layer.isOpen = true ∧ front.filter Proposal.isOpen = state.leftAlone ∧
        start.2 = (((front.filter Proposal.isOpen).getLast?).bind Proposal.headCommit).getD
          state.baseCommit := by
  unfold OriginState.replayStart at starts
  split at starts
  · rename_i found misaligned
    cases starts
    split at misaligned
    · rename_i intact
      obtain ⟨front, layer, back, chain, place, opened, head⟩ :=
        misalignedFrom_eq_some misaligned
      rw [Nat.zero_add] at place
      have alone : front.filter Proposal.isOpen = front := by
        rw [List.filter_eq_self]
        intro layer member
        exact List.all_eq_true.mp intact layer (by rw [chain]; exact List.mem_append_left _ member)
      refine ⟨front, layer, back, chain, place, opened, ?_, ?_⟩
      · rw [alone, OriginState.leftAlone, if_pos intact, misaligned]
        dsimp only
        rw [place, chain, List.take_left]
      · rw [nextBelow, Option.or_none] at head
        rw [head]
        rfl
    · cases misaligned
  · rename_i aligned
    obtain ⟨planned, survivor, same⟩ := Option.map_eq_some_iff.mp starts
    cases same
    obtain ⟨front, layer, back, chain, place, opened, head, alone⟩ :=
      planFrom_survivor rfl survivor
    rw [if_neg Bool.false_ne_true] at alone
    refine ⟨front, layer, back, chain, by rw [place, Nat.zero_add], opened, ?_, ?_⟩
    · cases intact : state.isIntact with
      | false => rw [alone, OriginState.leftAlone, intact, if_neg Bool.false_ne_true]
      | true =>
          -- A chain of open layers has no hole to replay above.
          rw [List.takeWhile_eq_self_iff.mpr (List.all_eq_true.mp intact)] at alone
          have shorter := List.length_filter_le Proposal.isOpen front
          rw [alone, chain, List.length_append, List.length_cons] at shorter
          omega
    · rw [head, nextBelow, Option.or_none]

theorem openLayers_of_replayStart (none : state.replayStart trunk = none) :
    state.openLayers = state.leftAlone := by
  unfold OriginState.replayStart at none
  split at none
  · cases none
  · rename_i aligned
    have alone := planFrom_none (Option.map_eq_none_iff.mp none)
    rw [openLayers_eq, OriginState.leftAlone]
    cases intact : state.isIntact with
    | false => rw [alone, if_neg Bool.false_ne_true, if_neg Bool.false_ne_true]
    | true =>
        rw [intact, if_pos rfl] at aligned
        rw [if_pos rfl, aligned, filter_isOpen_of_isIntact intact]

theorem replayStart_front (starts : state.replayStart trunk = some (front.length, parent))
    (chain : state.proposals = front ++ back) :
    front.filter Proposal.isOpen = state.leftAlone ∧
      parent = ((state.leftAlone.getLast?).bind Proposal.headCommit).getD state.baseCommit := by
  obtain ⟨other, first, rest, chain', place, -, alone, head⟩ := replayStart_eq_some starts
  obtain ⟨rfl, -⟩ := List.append_inj (chain.symm.trans chain') place
  rw [← alone]
  exact ⟨rfl, head⟩

/-- The records a repair ends with are settled. -/
theorem RepairSettled.of_chain (unblocked : Unblocked state.proposals)
    (chain : state.proposals = front ++ back) (replays : Replayed parent back replayed)
    (starts : (back = [] ∧ state.replayStart spec.branch = none) ∨
      ∃ layer rest, back = layer :: rest ∧ layer.isOpen = true ∧
        state.replayStart spec.branch = some (front.length, parent))
    (ends : left.proposals = (front ++ replayed).filter fun layer => !layer.hasLeft)
    (history : left.history =
      if state.proposals.filter Proposal.hasLeft = [] then state.history
      else ((state.proposals.filter Proposal.hasLeft).reverse ++ state.history).take historyCap)
    (queued : ∀ layer ∈ state.proposals, layer.hasLeft = true →
      ∃ entry ∈ left.retireQueue, entry.branch = layer.branch)
    (two : left.stackNumber.isSome = true → 2 ≤ left.openLayers.length)
    (settled : left.repairPending = false) : RepairSettled spec state left := by
  have opened : left.openLayers =
      front.filter Proposal.isOpen ++ replayed.filter Proposal.isOpen := by
    rw [openLayers_eq, ends, filter_isOpen_settled, List.filter_append]
  refine ⟨?_, history, queued, ?_, ?_, ?_, two, settled⟩
  · intro layer member
    rw [ends] at member
    simpa using (List.mem_filter.mp member).2
  · rw [opened, List.map_append, replays.map_openWork, openLayers_eq, chain, List.filter_append,
      List.map_append]
  · obtain ⟨rfl, none⟩ | ⟨layer, rest, rfl, isOpen, some⟩ := starts
    · cases replays
      refine ⟨[], ?_, .nil⟩
      rw [opened, ← openLayers_of_replayStart none, openLayers_eq, chain]
      simp
    · obtain ⟨alone, head⟩ := replayStart_front some chain
      refine ⟨_, by rw [opened, alone], ?_⟩
      rw [← head]
      exact replays.stacked
  · rw [ends]
    apply (unblocked.of_status _).openFirst
    rw [chain, List.map_append, List.map_append, replays.map_status]

/-- The short repair settles a chain without holes. -/
theorem returns_rebaseFrom (unblocked : Unblocked state.proposals)
    (intact : state.isIntact = true) {index : Nat} {parent : Sha}
    (misaligned : state.firstMisalignedLayer = some (index, parent)) :
    Returns (fun result => RepairSettled spec state result.2 ∧
        result.2.stackNumber = state.stackNumber)
      (rebaseFrom spec state index parent) := by
  have starts : state.replayStart spec.branch = some (index, parent) := by
    unfold OriginState.replayStart
    rw [intact, if_pos rfl, misaligned]
  obtain ⟨front, layer, back, chain, place, opened, -, -⟩ := replayStart_eq_some starts
  obtain ⟨front', layer', back', chain', place', opened', head⟩ :=
    misalignedFrom_eq_some misaligned
  obtain rfl : index = front.length := place
  have allOpen : ∀ layer ∈ state.proposals, layer.isOpen = true := List.all_eq_true.mp intact
  have noHoles : state.proposals.filter Proposal.hasLeft = [] := by
    rw [List.filter_eq_nil_iff]
    intro layer member left
    rw [not_hasLeft_of_isOpen (allOpen layer member)] at left
    cases left
  unfold rebaseFrom
  apply (returns_anything _).bind
  intro diverged _
  cases diverged with
  | some above => trivial
  | none =>
      apply (returns_cascadeReplays chain).bind
      rintro _ ⟨replayed, replays, rfl⟩
      apply (returns_anything _).bind
      intro _ _
      have stays : (front ++ replayed).filter (fun layer => !layer.hasLeft) = front ++ replayed := by
        rw [List.filter_eq_self]
        intro layer member
        have sameStatus : (front ++ replayed).map Proposal.status =
            state.proposals.map Proposal.status := by
          rw [chain, List.map_append, List.map_append, replays.map_status]
        have found : layer.status ∈ state.proposals.map Proposal.status := by
          rw [← sameStatus]
          exact List.mem_map_of_mem member
        obtain ⟨other, otherMember, same⟩ := List.mem_map.mp found
        have isOpen : layer.isOpen = true := by
          rw [Proposal.isOpen, ← same]
          exact allOpen other otherMember
        rw [not_hasLeft_of_isOpen isOpen]
        rfl
      refine ⟨RepairSettled.of_chain unblocked chain replays
        (.inr ⟨layer, back, rfl, opened, starts⟩) stays.symm ?_ ?_ ?_ rfl, rfl⟩
      · rw [if_pos noHoles]
      · intro layer member left
        rw [not_hasLeft_of_isOpen (allOpen layer member)] at left
        cases left
      · intro _
        have below : 1 ≤ (front'.filter Proposal.isOpen).length := by
          cases opened : front'.filter Proposal.isOpen with
          | nil => simp [nextBelow, opened] at head
          | cons => simp
        have sameLength : (front ++ replayed).filter Proposal.isOpen =
            front.filter Proposal.isOpen ++ replayed.filter Proposal.isOpen :=
          List.filter_append _ _
        have count := congrArg List.length replays.map_openWork
        have whole := congrArg (List.length ∘ List.filter Proposal.isOpen) (chain.symm.trans chain')
        simp only [Function.comp_apply, List.filter_append, List.length_append,
          List.filter_cons_of_pos opened', List.length_cons] at whole
        rw [List.length_map, List.length_map] at count
        rw [openLayers_eq, sameLength, List.length_append]
        omega

theorem returns_dissolveRecorded (state : OriginState) :
    Returns (fun left => left = { state with stackNumber := none })
      (dissolveRecorded state) := by
  unfold dissolveRecorded
  cases stack : state.stackNumber with
  | none =>
      change state = _
      rw [← stack]
  | some number =>
      have dissolved : Returns (fun left => left = { state with stackNumber := none }) (do
          perform (.save { state with stackNumber := none })
          return { state with stackNumber := none } : Operation OriginState) :=
        (returns_anything _).bind fun _ _ => rfl
      apply (returns_anything _).bind
      intro answer _
      cases answer with
      | ok _ => exact dissolved
      | error error =>
          dsimp only
          split
          · exact dissolved
          · trivial

theorem returns_recreateStack (state : OriginState) :
    Returns (fun result => ∃ number pending,
        result.1 = { state with stackNumber := number, stackLinkPending := pending } ∧
          (number.isSome = true → 2 ≤ state.openLayers.length))
      (recreateStack state) := by
  unfold recreateStack
  dsimp only
  split
  · rename_i two
    rw [List.length_map] at two
    apply (returns_anything _).bind
    intro answer _
    cases answer with
    | ok info => exact ⟨_, _, rfl, fun _ => two⟩
    | error error => exact ⟨_, _, rfl, nofun⟩
  · exact ⟨_, _, rfl, nofun⟩

section

variable (noBreak : (if state.isIntact then state.firstMisalignedLayer else none) = none)
include noBreak

theorem replayStart_of_plan :
    state.replayStart spec.branch = (state.repairPlan spec.branch).survivor.map fun start =>
      (start.1, start.2.getD state.baseCommit) := by
  unfold OriginState.replayStart
  rw [noBreak]

/-- The replay of a plan, by where it starts. -/
theorem returns_replayPlan :
    Returns (fun left => ∃ front back parent replayed, state.proposals = front ++ back ∧
        Replayed parent back replayed ∧
        ((back = [] ∧ state.replayStart spec.branch = none) ∨
          ∃ layer rest, back = layer :: rest ∧ layer.isOpen = true ∧
            state.replayStart spec.branch = some (front.length, parent)) ∧
        left = { state with stackNumber := none, proposals := front ++ replayed })
      (replayPlan spec { state with stackNumber := none } (state.repairPlan spec.branch)) := by
  have starts : state.replayStart spec.branch = (state.repairPlan spec.branch).survivor.map
      fun start => (start.1, start.2.getD state.baseCommit) := replayStart_of_plan noBreak
  unfold replayPlan
  cases survivor : (state.repairPlan spec.branch).survivor with
  | none =>
      rw [survivor] at starts
      refine ⟨state.proposals, [], state.baseCommit, [], by simp, .nil, .inl ⟨rfl, starts⟩, ?_⟩
      rw [List.append_nil]
  | some start =>
      obtain ⟨index, parent⟩ := start
      rw [survivor, Option.map_some] at starts
      obtain ⟨front, layer, back, chain, place, opened, -, -⟩ := replayStart_eq_some starts
      obtain rfl : index = front.length := place
      have chain' : ({ state with stackNumber := none } : OriginState).proposals =
          front ++ layer :: back := chain
      apply (returns_cascadeReplays chain').mono
      rintro _ ⟨replayed, replays, rfl⟩
      exact ⟨front, layer :: back, _, replayed, chain, replays,
        .inr ⟨layer, back, rfl, opened, starts⟩, rfl⟩

end

/-- The long repair settles a chain. -/
theorem returns_rebuildChain (unblocked : Unblocked state.proposals)
    (noBreak : (if state.isIntact then state.firstMisalignedLayer else none) = none) :
    Returns (fun result => RepairSettled spec state result.2) (rebuildChain spec state) := by
  unfold rebuildChain
  apply (returns_anything _).bind
  intro _ _
  apply (returns_dissolveRecorded state).bind
  rintro _ rfl
  apply (returns_replayPlan noBreak).bind
  rintro _ ⟨front, back, parent, replayed, chain, replays, starts, rfl⟩
  apply (returns_anything _).bind
  intro _ _
  apply (returns_recreateStack _).bind
  rintro ⟨_, restacked⟩ ⟨number, pending, rfl, two⟩
  apply (returns_anything _).bind
  intro _ _
  obtain ⟨queue, settles, queued⟩ := settleHoles_eq
    { state with stackNumber := none, proposals := front ++ replayed }
  have sameHoles : (front ++ replayed).filter Proposal.hasLeft =
      state.proposals.filter Proposal.hasLeft := by
    rw [chain, List.filter_append, List.filter_append, replays.filter_hasLeft]
  rw [settles] at two ⊢
  refine RepairSettled.of_chain unblocked chain replays starts rfl ?_ ?_ two rfl
  · dsimp only
    rw [sameHoles]
  · intro layer member left
    have stays : layer ∈ (front ++ replayed).filter Proposal.hasLeft := by
      rw [sameHoles]
      exact List.mem_filter.mpr ⟨member, left⟩
    exact queued layer (List.mem_filter.mp stays).1 left

/-- What a repair that ends well leaves, whatever the forge answers. -/
theorem returns_repairChain (spec : OriginSpec) (state : OriginState) :
    Returns (fun result => RepairSettled spec state result.2) (repairChain spec state) := by
  unfold repairChain
  cases blocked : state.mergedLayerBlockingRepair with
  | some number => trivial
  | none =>
      have unblocked := (unblocked_iff state).mp blocked
      dsimp only
      split
      · rename_i index parent found
        split at found
        · rename_i intact
          exact (returns_rebaseFrom unblocked intact found).mono fun _ => And.left
        · cases found
      · rename_i noBreak
        exact returns_rebuildChain unblocked noBreak

end Repair

section Stacks

variable {World : Type} {answers : Answers World Call Call.Answer} {accepted : Bool} {world : World}
  {spec : OriginSpec} {state : OriginState}

/-- A forge that creates the stacks it is asked for, or one that refuses them. -/
def CreatesStacks (answers : Answers World Call Call.Answer) (accepted : Bool) : Prop :=
  ∀ world numbers answer last, answers world (.createStack numbers) answer last →
    answer.isOk = accepted

theorem ensures_recreateStack (creates : CreatesStacks answers accepted) (state : OriginState) :
    Ensures answers (OnReturn fun result _ => result.1.openLayers = state.openLayers ∧
        result.1.stackNumber.isSome = (accepted && decide (2 ≤ state.openLayers.length)))
      (recreateStack state) world := by
  unfold recreateStack
  dsimp only
  rw [List.length_map]
  split
  · rename_i two
    refine ⟨trivial, fun answer middle answered => ?_⟩
    have isOk := creates _ _ _ _ answered
    cases answer with
    | ok info => exact ⟨trivial, rfl, by simp [← isOk, two, Except.isOk, Except.toBool]⟩
    | error error => exact ⟨trivial, rfl, by simp [← isOk, Except.isOk, Except.toBool]⟩
  · rename_i fewer
    exact ⟨trivial, rfl, by simp [fewer]⟩

/-- Whether a stack number stands after the long repair. -/
theorem ensures_rebuildChain (creates : CreatesStacks answers accepted) :
    Ensures answers (OnReturn fun result _ =>
        result.2.stackNumber.isSome = (accepted && decide (2 ≤ result.2.openLayers.length)))
      (rebuildChain spec state) world := by
  unfold rebuildChain
  apply (returns_anything _).ensures_bind
  intro _ _ _
  apply (returns_anything _).ensures_bind
  intro _ _ _
  apply (returns_anything _).ensures_bind
  intro _ _ _
  apply (returns_anything _).ensures_bind
  intro _ _ _
  apply (ensures_recreateStack creates _).bind
  · rintro ⟨restacked, _⟩ last ⟨opened, stands⟩
    apply (returns_anything _).ensures_bind
    intro _ _ _
    refine ⟨trivial, ?_⟩
    rw [← opened] at stands
    exact stands
  · intro _ _ _
    trivial
  · intro _ _
    trivial

theorem stackedAfter_of_misaligned (intact : state.isIntact = true) {start : Nat × Sha}
    (found : state.firstMisalignedLayer = some start) :
    state.stackedAfter accepted = state.stackNumber.isSome := by
  rw [OriginState.stackedAfter, intact, found]
  rfl

theorem stackedAfter_of_aligned
    (aligned : (if state.isIntact then state.firstMisalignedLayer else none) = none) :
    state.stackedAfter accepted = (accepted && decide (2 ≤ state.openLayers.length)) := by
  rw [OriginState.stackedAfter, if_neg]
  intro both
  obtain ⟨intact, misaligned⟩ := Bool.and_eq_true_iff.mp both
  rw [if_pos intact] at aligned
  rw [aligned] at misaligned
  cases misaligned

/-- A stack number that stands after a repair, whatever the forge answers. -/
theorem returns_stackNumber (spec : OriginSpec) (state : OriginState) :
    Returns (fun result => result.2.stackNumber.isSome = true → state.stackedAfter true = true)
      (repairChain spec state) := by
  unfold repairChain
  cases blocked : state.mergedLayerBlockingRepair with
  | some number => trivial
  | none =>
      have unblocked := (unblocked_iff state).mp blocked
      dsimp only
      split
      · rename_i index parent found
        split at found
        · rename_i intact
          apply (returns_rebaseFrom unblocked intact found).mono
          rintro _ ⟨-, same⟩ stacked
          rw [stackedAfter_of_misaligned intact found, ← same]
          exact stacked
        · cases found
      · rename_i aligned
        apply (returns_rebuildChain unblocked aligned).mono
        intro result settled stacked
        have kept := congrArg List.length settled.kept
        rw [List.length_map, List.length_map] at kept
        have two := settled.two stacked
        rw [kept] at two
        rw [stackedAfter_of_aligned aligned]
        exact decide_eq_true two

/-- Whether a stack number stands after a repair. -/
theorem stackNumber_of_run (creates : CreatesStacks answers accepted) {last : World}
    {result : RepairOutcome × OriginState}
    (run : Runs answers world (repairChain spec state) (.returned result) last) :
    result.2.stackNumber.isSome = state.stackedAfter accepted := by
  have settled := (returns_repairChain spec state).of_run run
  have kept := congrArg List.length settled.kept
  rw [List.length_map, List.length_map] at kept
  unfold repairChain at run
  cases blocked : state.mergedLayerBlockingRepair with
  | some number =>
      rw [blocked] at run
      cases run
  | none =>
      rw [blocked] at run
      dsimp only at run
      split at run
      · rename_i index parent found
        split at found
        · rename_i intact
          have unblocked := (unblocked_iff state).mp blocked
          rw [((returns_rebaseFrom unblocked intact found).of_run run).2,
            stackedAfter_of_misaligned intact found]
        · cases found
      · rename_i aligned
        have stands : result.2.stackNumber.isSome = _ :=
          (ensures_rebuildChain creates).of_run run
        rw [stands, kept, stackedAfter_of_aligned aligned]

end Stacks

/-- Layers that stand each on the head of the one below. -/
def StandOn : Option Sha → List Proposal → Prop
  | _, [] => True
  | below, layer :: layers => layer.baseCommit = below ∧ StandOn layer.headCommit layers

/-- A chain that a repair has settled. -/
structure ChainSettled (spec : OriginSpec) (state left : OriginState) : Prop where
  whole : left.stackShapeBroken = false
  /-- The next operation makes no call. -/
  idle : finishPendingRepair spec left = pure (⟨false, none⟩, left)
  replayed : ∀ low high, left.openLayers = low ++ high → low.length = state.leftAlone.length →
    StandOn ((low.getLast?.map Proposal.headCommit).getD (some state.baseCommit)) high
  noneLeft : ∀ layer ∈ left.proposals, layer.hasLeft = false
  settled : ∀ layer ∈ state.proposals, layer.hasLeft = true → layer ∈ left.history ∧
    ∃ entry ∈ left.retireQueue, entry.branch = layer.branch
  kept : left.openLayers.map Proposal.work = state.openLayers.map Proposal.work

/-- A chain that a repair settles: the layers it leaves alone stand on one another,
the topmost has a recorded head where one is replayed above it, and history has
room for the records that left. -/
structure OriginState.Settles (state : OriginState) (accepted : Bool) : Prop where
  aligned : state.stackedAfter accepted = true → anyMisaligned state.leftAlone = false
  recorded : state.leftAlone.length < state.openLayers.length →
    (state.leftAlone.getLast?.all fun top => top.headCommit.isSome) = true
  room : ∀ layer ∈ state.proposals.filter Proposal.hasLeft, layer ∈
    ((state.proposals.filter Proposal.hasLeft).reverse ++ state.history).take historyCap

section Whole

variable {spec : OriginSpec} {state left : OriginState} {layers above : List Proposal}
  {parent : Sha} {below : Option Sha} {accepted : Bool}

theorem Stacked.standOn_iff (stacked : Stacked parent layers) :
    StandOn below layers ↔ layers = [] ∨ below = some parent := by
  have stands : ∀ {parent layers}, Stacked parent layers → StandOn (some parent) layers := by
    intro parent layers stacked
    induction stacked with
    | nil => trivial
    | cons base head _ _ ih =>
        rw [StandOn, head]
        exact ⟨base, ih⟩
  cases stacked with
  | nil => exact iff_of_true trivial (.inl rfl)
  | cons base head _ rest =>
      rw [StandOn, base, head, eq_comm]
      simp [stands rest]

/-- The head that the first replayed layer should stand on is the one it was
replayed on. -/
theorem standsOn_iff (state : OriginState) :
    (state.leftAlone.getLast?.map Proposal.headCommit).getD (some state.baseCommit) =
        some (((state.leftAlone.getLast?).bind Proposal.headCommit).getD state.baseCommit) ↔
      (state.leftAlone.getLast?.all fun top => top.headCommit.isSome) = true := by
  cases state.leftAlone.getLast? with
  | none => simp
  | some top => cases recorded : top.headCommit <;> simp [recorded]

variable (settled : RepairSettled spec state left)
include settled

theorem RepairSettled.replayed_iff :
    (∀ low high, left.openLayers = low ++ high → low.length = state.leftAlone.length →
        StandOn ((low.getLast?.map Proposal.headCommit).getD (some state.baseCommit)) high) ↔
      (state.leftAlone.length < state.openLayers.length →
        (state.leftAlone.getLast?.all fun top => top.headCommit.isSome) = true) := by
  obtain ⟨above, opened, stacked⟩ := settled.replayed
  have count := congrArg List.length settled.kept
  rw [List.length_map, List.length_map, opened, List.length_append] at count
  have nonempty : state.leftAlone.length < state.openLayers.length ↔ above ≠ [] := by
    rw [← List.length_pos_iff]
    omega
  rw [nonempty, ← standsOn_iff]
  constructor
  · intro each higher
    exact (stacked.standOn_iff.mp (each _ _ opened rfl)).resolve_left higher
  · intro recorded low high split sameLength
    obtain ⟨rfl, rfl⟩ := List.append_inj (opened.symm.trans split) sameLength.symm
    apply stacked.standOn_iff.mpr
    by_cases empty : above = []
    · exact .inl empty
    · exact .inr (recorded empty)

theorem RepairSettled.history_keeps_iff :
    (∀ layer ∈ state.proposals, layer.hasLeft = true → layer ∈ left.history ∧
        ∃ entry ∈ left.retireQueue, entry.branch = layer.branch) ↔
      ∀ layer ∈ state.proposals.filter Proposal.hasLeft, layer ∈
        ((state.proposals.filter Proposal.hasLeft).reverse ++ state.history).take historyCap := by
  have listed : ∀ layer ∈ state.proposals.filter Proposal.hasLeft, left.history =
      ((state.proposals.filter Proposal.hasLeft).reverse ++ state.history).take historyCap := by
    intro layer member
    rw [settled.history, if_neg (List.ne_nil_of_mem member)]
  constructor
  · intro each layer member
    rw [← listed layer member]
    obtain ⟨inChain, gone⟩ := List.mem_filter.mp member
    exact (each layer inChain gone).1
  · intro room layer inChain gone
    have member := List.mem_filter.mpr ⟨inChain, gone⟩
    exact ⟨by rw [listed layer member]; exact room layer member,
      settled.queued layer inChain gone⟩

/-- The shape a repair leaves. -/
theorem RepairSettled.whole_iff (recorded : state.leftAlone.length < state.openLayers.length →
      (state.leftAlone.getLast?.all fun top => top.headCommit.isSome) = true) :
    left.stackShapeBroken = false ↔
      (left.stackNumber.isSome = true → anyMisaligned state.leftAlone = false) := by
  obtain ⟨above, opened, stacked⟩ := settled.replayed
  have count := congrArg List.length settled.kept
  rw [List.length_map, List.length_map, opened, List.length_append] at count
  have same : anyMisaligned left.openLayers = anyMisaligned state.leftAlone := by
    rw [opened]
    by_cases empty : above = []
    · rw [empty, List.append_nil]
    · have longer := List.length_pos_iff.mpr empty
      have stands := (standsOn_iff state).mpr (recorded (by omega))
      rw [anyMisaligned_append stacked empty, Bool.or_eq_left_iff_imp]
      intro unaligned
      cases top : state.leftAlone.getLast? with
      | none =>
          rw [top] at unaligned
          cases unaligned
      | some layer =>
          rw [top] at stands unaligned
          rw [Option.map_some, Option.getD_some] at stands
          rw [Option.all_some, stands, decide_eq_true rfl] at unaligned
          cases unaligned
  rw [stackShapeBroken_eq settled.openFirst settled.two, same]
  cases left.stackNumber.isSome <;> simp

/-- A chain that settles, settled. -/
theorem RepairSettled.chainSettled (holds : state.Settles accepted)
    (stands : left.stackNumber.isSome = true → state.stackedAfter accepted = true) :
    ChainSettled spec state left := by
  have whole := (settled.whole_iff holds.recorded).mpr fun stacked => holds.aligned (stands stacked)
  refine ⟨whole, ?_, settled.replayed_iff.mpr holds.recorded, settled.noneLeft,
    settled.history_keeps_iff.mpr holds.room, settled.kept⟩
  unfold finishPendingRepair
  rw [settled.settled, whole]
  rfl

/-- Only such a chain is settled. -/
theorem RepairSettled.settles (chain : ChainSettled spec state left)
    (stands : state.stackedAfter accepted = true → left.stackNumber.isSome = true) :
    state.Settles accepted := by
  have recorded := settled.replayed_iff.mp chain.replayed
  exact ⟨fun stacked => (settled.whole_iff recorded).mp chain.whole (stands stacked), recorded,
    settled.history_keeps_iff.mp chain.settled⟩

end Whole

/-- A repair that ends well settles the chain whatever the forge answers where the
chain is one that settles; and exactly there, by whether the forge creates the
stack it is asked for. -/
theorem repairChain_settles {World : Type} {answers : Answers World Call Call.Answer}
    {spec : OriginSpec} {state left : OriginState} {outcome : RepairOutcome} {world last : World}
    (run : Runs answers world (repairChain spec state) (.returned (outcome, left)) last) :
    (state.Settles true → ChainSettled spec state left) ∧
      ∀ accepted, CreatesStacks answers accepted →
        (ChainSettled spec state left ↔ state.Settles accepted) := by
  have settled := (returns_repairChain spec state).of_run run
  refine ⟨fun holds => settled.chainSettled holds ((returns_stackNumber spec state).of_run run), ?_⟩
  intro accepted creates
  have stands := stackNumber_of_run creates run
  exact ⟨fun chain => settled.settles chain fun stacked => stands.trans stacked,
    fun holds => settled.chainSettled holds fun stacked => stands.symm.trans stacked⟩

section Samples

/-- A forge whose branches are gone and whose every write succeeds. -/
def emptyForge (_ : Unit) : (request : Call) → request.Answer × Unit
  | .branchRef _ => (.ok none, ())
  | .createTree _ _ => (.ok "tree", ())
  | .createCommit _ _ _ => (.ok "commit", ())
  | .createStack _ => (.ok ⟨9, true, []⟩, ())
  | .updateBranch _ _ _ | .updateProposal _ _ _ _ | .dissolveStack _ | .save _ => (.ok (), ())
  | .blob _ | .createBlob _ | .createBranch _ _ | .deleteBranch _ | .createProposal _
  | .closeProposal _ | .proposalState _ | .listOpenProposals | .listStacks _
  | .extendStack _ _ | .writeFile _ _ | .removeFile _ => (.error .offline, ())

/-- A record with nothing in it. -/
def bareLayer (number : Nat) (status : ProposalStatus) (base head : Option Sha) : Proposal where
  number := number
  url := ""
  branch := s!"share-{number}"
  title := ""
  status := status
  files := []
  headCommit := head
  pendingHeadCommit := none
  baseCommit := base
  authorLogin := none

/-- A stacked chain of records. -/
def stackedChain (layers : List Proposal) : OriginState :=
  { OriginState.new "main" with baseCommit := "trunk", proposals := layers, stackNumber := some 3 }

def teamNotes : OriginSpec := ⟨"team/notes", none, "main"⟩

/-- What a repair leaves of a stacked chain at the empty forge. -/
def repairedChain (layers : List Proposal) : Option OriginState :=
  match ((repairChain teamNotes (stackedChain layers)).eval emptyForge ()).1 with
  | .ok (_, left) => some left
  | .error _ => none

/-- What the empty forge answers. -/
def EmptyForge (_ : Unit) (request : Call) (answer : request.Answer) (_ : Unit) : Prop :=
  answer = (emptyForge () request).1

/-- A chain whose second layer was withdrawn. -/
def holedChain : OriginState := stackedChain
  [bareLayer 1 .opened (some "trunk") (some "a"), bareLayer 2 .withdrawn (some "a") (some "b"),
    bareLayer 3 .opened (some "b") (some "c"), bareLayer 4 .opened (some "c") (some "d")]

/-- A chain whose lower layer has no recorded head. -/
def headlessChain : OriginState :=
  stackedChain [bareLayer 1 .opened none none, bareLayer 2 .opened (some "old") (some "b")]

theorem emptyForge_creates : CreatesStacks EmptyForge true := by
  rintro _ _ _ _ rfl
  rfl

/-- The run of a repair that the empty forge lets through. -/
theorem emptyForge_run {state left : OriginState} {outcome : RepairOutcome}
    (returned : ((repairChain teamNotes state).eval emptyForge ()).1 = .ok (outcome, left)) :
    Runs EmptyForge () (repairChain teamNotes state) (.returned (outcome, left)) () := by
  have run : Runs EmptyForge () (repairChain teamNotes state)
      (.ofExcept ((repairChain teamNotes state).eval emptyForge ()).1) () :=
    runs_eval (fun _ _ => rfl) _ _
  rw [returned] at run
  exact run

/-- The chain with the hole is settled, the one without a head is not. -/
theorem repairChain_settles_holed :
    (∃ outcome left, Runs EmptyForge () (repairChain teamNotes holedChain)
        (.returned (outcome, left)) () ∧ ChainSettled teamNotes holedChain left) ∧
      ∃ outcome left, Runs EmptyForge () (repairChain teamNotes headlessChain)
        (.returned (outcome, left)) () ∧ ¬ ChainSettled teamNotes headlessChain left := by
  constructor
  · obtain ⟨outcome, left, returned⟩ : ∃ outcome left,
        ((repairChain teamNotes holedChain).eval emptyForge ()).1 = .ok (outcome, left) :=
      ⟨_, _, rfl⟩
    have run := emptyForge_run returned
    exact ⟨outcome, left, run, (repairChain_settles run).1
      ⟨fun _ => by decide, fun _ => by decide, by decide⟩⟩
  · obtain ⟨outcome, left, returned⟩ : ∃ outcome left,
        ((repairChain teamNotes headlessChain).eval emptyForge ()).1 = .ok (outcome, left) :=
      ⟨_, _, rfl⟩
    have run := emptyForge_run returned
    refine ⟨outcome, left, run, fun settled => ?_⟩
    have holds := ((repairChain_settles run).2 true emptyForge_creates).mp settled
    have aligned := holds.aligned (by decide)
    exact absurd aligned (by decide)

/-- A repair leaves the shape broken over a layer without a recorded head and
below the lowest hole, and history holds no more than twenty records. -/
theorem repairChain_leaves_broken :
    ((repairedChain [bareLayer 1 .opened none none,
        bareLayer 2 .opened (some "old") (some "b")]).any OriginState.stackShapeBroken = true) ∧
      ((repairedChain [bareLayer 1 .opened (some "trunk") (some "a"),
        bareLayer 2 .opened (some "old") (some "b"), bareLayer 3 .declined none none]).any
          OriginState.stackShapeBroken = true) ∧
      (repairedChain ((List.range 21).map fun number => bareLayer number .declined none none)).any
        (fun left => !left.history.any fun layer => layer.number = 0) = true := by
  decide

end Samples

end Crystalline.Remote
