import Crystalline.Remote.Repair

/-!
# What a cascade makes of the records

A replay changes the heads and bases of the open layers from an index up and
nothing else, and leaves each of them standing on the one below.
-/

namespace Crystalline.Remote

open Programs

/-- A chain whose open layers were rebuilt one on the other, the first on a
given head. -/
inductive Replayed : Sha → List Proposal → List Proposal → Prop where
  | nil {parent : Sha} : Replayed parent [] []
  | skip {parent : Sha} {layer : Proposal} {layers replayed : List Proposal}
      (closed : layer.isOpen = false) (rest : Replayed parent layers replayed) :
      Replayed parent (layer :: layers) (layer :: replayed)
  | replay {parent commit : Sha} {layer : Proposal} {layers replayed : List Proposal}
      (opened : layer.isOpen = true) (rest : Replayed commit layers replayed) :
      Replayed parent (layer :: layers) (layer.pushed commit parent :: replayed)

/-- Layers that stand each on the recorded head of the one below, the first on a
given head, with nothing pending. -/
inductive Stacked : Sha → List Proposal → Prop where
  | nil {parent : Sha} : Stacked parent []
  | cons {parent commit : Sha} {layer : Proposal} {layers : List Proposal}
      (base : layer.baseCommit = some parent) (head : layer.headCommit = some commit)
      (settled : layer.pendingHeadCommit = none) (rest : Stacked commit layers) :
      Stacked parent (layer :: layers)

/-- What a layer proposes: everything but where it stands. -/
def Proposal.work (layer : Proposal) :
    Nat × String × String × String × List ProposedFile × Option String :=
  (layer.number, layer.url, layer.branch, layer.title, layer.files, layer.authorLogin)

section Records

variable {layer : Proposal} {commit base : Sha} {status : ProposalStatus}

@[simp] theorem isOpen_pushed : (layer.pushed commit base).isOpen = layer.isOpen := rfl

@[simp] theorem hasLeft_pushed : (layer.pushed commit base).hasLeft = layer.hasLeft := rfl

@[simp] theorem work_pushed : (layer.pushed commit base).work = layer.work := rfl

@[simp] theorem status_pushed : (layer.pushed commit base).status = layer.status := rfl

theorem not_hasLeft_of_isOpen (opened : layer.isOpen = true) : layer.hasLeft = false := by
  have isOpen : layer.status = .opened := of_decide_eq_true opened
  rw [Proposal.hasLeft, isOpen]
  rfl

theorem openLayers_eq (state : OriginState) :
    state.openLayers = state.proposals.filter Proposal.isOpen := rfl

theorem setLayer_at {state : OriginState} {front back : List Proposal}
    (chain : state.proposals = front ++ layer :: back) (change : Proposal → Proposal) :
    state.setLayer front.length change =
      { state with proposals := front ++ change layer :: back } := by
  have modified : ∀ front : List Proposal,
      (front ++ layer :: back).modify front.length change = front ++ change layer :: back := by
    intro front
    induction front with
    | nil => rfl
    | cons first front ih => rw [List.cons_append, List.length_cons, List.modify_succ_cons, ih,
        List.cons_append]
  rw [OriginState.setLayer, chain, modified]

end Records

section Replay

variable {parent : Sha} {layers replayed : List Proposal}

section

variable (replays : Replayed parent layers replayed)
include replays

theorem Replayed.map_status : replayed.map Proposal.status = layers.map Proposal.status := by
  induction replays with
  | nil => rfl
  | skip _ _ ih => rw [List.map_cons, List.map_cons, ih]
  | replay _ _ ih => rw [List.map_cons, List.map_cons, ih, status_pushed]

theorem Replayed.map_openWork :
    (replayed.filter Proposal.isOpen).map Proposal.work =
      (layers.filter Proposal.isOpen).map Proposal.work := by
  induction replays with
  | nil => rfl
  | skip closed _ ih =>
      rw [List.filter_cons_of_neg (by simp [closed]), List.filter_cons_of_neg (by simp [closed]), ih]
  | replay opened _ ih =>
      rw [List.filter_cons_of_pos opened, List.filter_cons_of_pos (by simp [opened]),
        List.map_cons, List.map_cons, ih, work_pushed]

theorem Replayed.filter_hasLeft :
    replayed.filter Proposal.hasLeft = layers.filter Proposal.hasLeft := by
  induction replays with
  | nil => rfl
  | skip _ _ ih => rw [List.filter_cons, List.filter_cons, ih]
  | replay opened _ ih =>
      have stays := not_hasLeft_of_isOpen opened
      rw [List.filter_cons_of_neg (by simp [stays]), List.filter_cons_of_neg (by simp [stays]), ih]

theorem Replayed.stacked : Stacked parent (replayed.filter Proposal.isOpen) := by
  induction replays with
  | nil => exact .nil
  | skip closed _ ih =>
      rw [List.filter_cons_of_neg (by simp [closed])]
      exact ih
  | replay opened _ ih =>
      rw [List.filter_cons_of_pos (by simp [opened])]
      exact .cons rfl rfl rfl ih

end

end Replay

section Cascade

variable {sub : Option Text} {parent : Sha} {state : OriginState}
  {front back : List Proposal} {layer : Proposal}

section

variable (chain : state.proposals = front ++ layer :: back)
include chain

theorem returns_announce (commit : Sha) :
    Returns (fun saved => saved = { state with
        proposals := front ++ layer.announcing commit :: back })
      (announce state front.length commit) := by
  unfold announce
  rw [setLayer_at chain]
  exact (returns_anything _).bind fun _ _ => rfl

/-- One turn rebuilds an open layer on the head, and leaves another record. -/
theorem returns_replayLayer :
    Returns (fun carried =>
        (layer.isOpen = false ∧ carried = (state, parent)) ∨
          (layer.isOpen = true ∧ ∃ commit, carried =
            ({ state with proposals := front ++ layer.pushed commit parent :: back }, commit)))
      (replayLayer sub (state, parent) front.length) := by
  have here : state.proposals[front.length]? = some layer := by
    rw [chain, List.getElem?_append_right (Nat.le_refl _), Nat.sub_self, List.getElem?_cons_zero]
  unfold replayLayer
  dsimp only
  rw [here]
  dsimp only
  cases opened : layer.isOpen with
  | false =>
      change _ ∨ _
      exact .inl ⟨rfl, rfl⟩
  | true =>
      rw [Bool.not_true, if_neg Bool.false_ne_true]
      apply (returns_anything _).bind
      intro writes _
      apply (returns_anything _).bind
      intro tree _
      apply (returns_anything _).bind
      intro commit _
      apply (returns_announce chain commit).bind
      rintro _ rfl
      apply (returns_anything _).bind
      intro _ _
      rw [setLayer_at rfl]
      exact (returns_anything _).bind fun _ _ => .inr ⟨rfl, commit, rfl⟩

end

theorem returns_replays (chain : state.proposals = front ++ back) :
    Returns (fun carried => ∃ replayed, Replayed parent back replayed ∧
        carried.1 = { state with proposals := front ++ replayed })
      (Program.forEach (replayLayer sub) (state, parent)
        (List.range' front.length back.length)) := by
  induction back generalizing front state parent with
  | nil =>
      refine ⟨[], .nil, ?_⟩
      rw [← chain]
  | cons layer back ih =>
      rw [List.length_cons, List.range'_succ]
      apply (returns_replayLayer chain).bind
      have next : front.length + 1 = (front ++ [layer]).length := by simp
      rintro _ (⟨closed, rfl⟩ | ⟨opened, commit, rfl⟩)
      · rw [next]
        apply (ih (by rw [chain]; simp)).mono
        rintro carried ⟨replayed, replays, rest⟩
        exact ⟨layer :: replayed, .skip closed replays, by rw [rest]; simp⟩
      · have next' : front.length + 1 = (front ++ [layer.pushed commit parent]).length := by simp
        rw [next']
        apply (ih (by simp)).mono
        rintro carried ⟨replayed, replays, rest⟩
        exact ⟨_, .replay opened replays, by rw [rest]; simp⟩

theorem returns_cascadeReplays (chain : state.proposals = front ++ back) :
    Returns (fun left => ∃ replayed, Replayed parent back replayed ∧
        left = { state with proposals := front ++ replayed })
      (cascadeReplays sub state front.length parent) := by
  have size : state.proposals.length - front.length = back.length := by
    rw [chain, List.length_append, Nat.add_sub_cancel_left]
  unfold cascadeReplays
  rw [size]
  exact (returns_replays chain).bind fun _ replays => replays

end Cascade

end Crystalline.Remote
