import Crystalline.Remote.Branches
import Crystalline.Remote.RepairSettles

/-!
# Re-basing a chain under review

Reviewers push while an amend or a repair runs.  The one pass over the layers
before the first write refuses over whatever was pushed by then, so only a
commit pushed between the look at a branch and its forced move is overwritten.
-/

namespace Crystalline.Remote

open Programs

section Reviews

/-- A reviewer pushes a new commit on top of a branch. -/
def reviews (world last : Branches) : Prop :=
  ∃ branch head commit parents, world.heads branch = some head ∧
    world.parents commit = none ∧ head ∈ parents ∧ last = world.push branch commit parents

/-- A commit is still on its branch. -/
def Kept (world : Branches) (branch : String) (commit : Sha) : Prop :=
  ∃ head, world.heads branch = some head ∧ world.Descends head commit

/-- A commit pushed after the machine looked at the branch and before it forced
it. -/
def Raced (events : List BranchEvent) (branch : String) (commit : Sha) : Prop :=
  ∃ later earlier, events = later ++ .pushed branch commit :: earlier ∧
    .probed branch ∈ earlier ∧ ∃ moved, .moved branch moved true ∈ later

/-- A branch this machine looked at before anybody pushed to it. -/
def SeenFirst (events : List BranchEvent) (branch : String) : Prop :=
  ∃ later earlier, events = later ++ .probed branch :: earlier ∧
    ∀ commit, .pushed branch commit ∉ earlier

/-- No layer takes the head of a branch for ours. -/
def Foreign (layers : List Proposal) (branch : String) (head : Sha) : Prop :=
  ∀ layer ∈ layers, layer.branch = branch → headIsOurs layer head = false

variable {world last : Branches} {branch : String} {commit head : Sha}
  {events : List BranchEvent}

theorem Raced.cons (raced : Raced events branch commit) (event : BranchEvent) :
    Raced (event :: events) branch commit := by
  obtain ⟨later, earlier, rfl, probed, moved, isMoved⟩ := raced
  exact ⟨event :: later, earlier, rfl, probed, moved, List.mem_cons_of_mem _ isMoved⟩

theorem SeenFirst.cons (seen : SeenFirst events branch) (event : BranchEvent) :
    SeenFirst (event :: events) branch := by
  obtain ⟨later, earlier, rfl, unpushed⟩ := seen
  exact ⟨event :: later, earlier, rfl, unpushed⟩

/-- What is on a branch seen first was pushed after the look, so a forced move
races it. -/
theorem SeenFirst.raced (seen : SeenFirst events branch) (pushed : .pushed branch commit ∈ events)
    (moved : Sha) : Raced (.moved branch moved true :: events) branch commit := by
  obtain ⟨later, earlier, rfl, unpushed⟩ := seen
  have inLater : .pushed branch commit ∈ later := by
    obtain inLater | inRest := List.mem_append.mp pushed
    · exact inLater
    · obtain same | inEarlier := List.mem_cons.mp inRest
      · cases same
      · exact absurd inEarlier (unpushed commit)
  obtain ⟨front, back, rfl⟩ := List.append_of_mem inLater
  refine ⟨.moved branch moved true :: front, back ++ .probed branch :: earlier, ?_, ?_, moved,
    List.mem_cons_self⟩
  · simp
  · exact List.mem_append_right _ List.mem_cons_self

theorem Descends.mono {child parent : Sha} (descends : world.Descends child parent)
    (more : ∀ commit parents, world.parents commit = some parents →
      last.parents commit = some parents) : last.Descends child parent := by
  induction descends with
  | refl => exact .refl
  | tail _ step ih =>
      obtain ⟨parents, isParents, member⟩ := step
      exact ih.tail ⟨parents, more _ parents isParents, member⟩

end Reviews

section Watching

/-- What an operation did so far to the branches and what reviewers did beside
it: a pushed commit is on its branch still, or was raced by a forced move. -/
structure Watch (start : Branches) (layers : List Proposal) (forced : List String)
    (events : List BranchEvent) (world : Branches) : Prop where
  log : world.log = events ++ start.log
  grown : ∀ commit parents, start.parents commit = some parents →
    world.parents commit = some parents
  fresh : ∀ branch commit, .pushed branch commit ∈ events → start.parents commit = none
  kept : ∀ branch commit, .pushed branch commit ∈ events →
    Kept world branch commit ∨ (branch ∈ forced ∧ Raced events branch commit)
  foreign : ∀ branch head, start.heads branch = some head → Foreign layers branch head →
    Kept world branch head
  /-- Until it is moved, a branch stands where it stood or at a pushed commit. -/
  stands : ∀ branch, (∀ commit force, .moved branch commit force ∉ events) →
    (world.heads branch = start.heads branch ∧ ∀ commit, .pushed branch commit ∉ events) ∨
      ∃ commit, .pushed branch commit ∈ events ∧ world.heads branch = some commit

variable {start world last : Branches} {layers : List Proposal} {forced : List String}
  {events : List BranchEvent} {branch : String} {commit : Sha}

theorem Watch.initial : Watch start layers forced [] start where
  log := rfl
  grown _ _ isParents := isParents
  fresh _ _ := (nomatch ·)
  kept _ _ := (nomatch ·)
  foreign _ head stands _ := ⟨head, stands, .refl⟩
  stands _ _ := .inl ⟨rfl, fun _ => (nomatch ·)⟩

/-- An event that takes nothing off a branch. -/
theorem Watch.event (watch : Watch start layers forced events world) {event : BranchEvent}
    (log : last.log = event :: world.log)
    (grown : ∀ commit parents, world.parents commit = some parents →
      last.parents commit = some parents)
    (keeps : ∀ branch commit, Kept world branch commit → Kept last branch commit)
    (pushed : ∀ branch commit, event = .pushed branch commit →
      world.parents commit = none ∧ last.heads branch = some commit)
    (stays : ∀ branch, (∀ commit, event ≠ .pushed branch commit) →
      (∀ commit force, event ≠ .moved branch commit force) →
        last.heads branch = world.heads branch) :
    Watch start layers forced (event :: events) last where
  log := by rw [log, watch.log, List.cons_append]
  grown commit parents isParents := grown commit parents (watch.grown commit parents isParents)
  fresh branch commit member := by
    obtain same | old := List.mem_cons.mp member
    · by_contra known
      obtain ⟨parents, isParents⟩ := Option.ne_none_iff_exists'.mp known
      have unknown := (pushed branch commit same.symm).1
      rw [watch.grown commit parents isParents] at unknown
      cases unknown
    · exact watch.fresh branch commit old
  kept branch commit member := by
    obtain same | old := List.mem_cons.mp member
    · exact .inl ⟨commit, (pushed branch commit same.symm).2, .refl⟩
    · obtain kept | ⟨isForced, raced⟩ := watch.kept branch commit old
      · exact .inl (keeps branch commit kept)
      · exact .inr ⟨isForced, raced.cons event⟩
  foreign branch head stands foreign := keeps branch head (watch.foreign branch head stands foreign)
  stands branch unmoved := by
    by_cases isPush : ∃ commit, event = .pushed branch commit
    · obtain ⟨commit, same⟩ := isPush
      exact .inr ⟨commit, by rw [same]; exact List.mem_cons_self, (pushed branch commit same).2⟩
    · have notPush := not_exists.mp isPush
      have unmoved' : ∀ commit force, .moved branch commit force ∉ events :=
        fun commit force member => unmoved commit force (List.mem_cons_of_mem _ member)
      rw [stays branch notPush fun commit force same =>
        unmoved commit force (by rw [same]; exact List.mem_cons_self)]
      obtain ⟨same, unpushed⟩ | ⟨commit, member, isHead⟩ := watch.stands branch unmoved'
      · refine .inl ⟨same, ?_⟩
        intro commit member
        obtain same | old := List.mem_cons.mp member
        · exact notPush commit same.symm
        · exact unpushed commit old
      · exact .inr ⟨commit, List.mem_cons_of_mem _ member, isHead⟩

theorem Kept.mono (kept : Kept world branch commit) (heads : last.heads branch = world.heads branch)
    (more : ∀ commit parents, world.parents commit = some parents →
      last.parents commit = some parents) : Kept last branch commit := by
  obtain ⟨head, stands, descends⟩ := kept
  exact ⟨head, heads.trans stands, Descends.mono descends more⟩

theorem Kept.forward {head next : Sha} (kept : Kept world branch commit)
    (stands : world.heads branch = some head) (moved : last.heads branch = some next)
    (more : ∀ commit parents, world.parents commit = some parents →
      last.parents commit = some parents) (descends : last.Descends next head) :
    Kept last branch commit := by
  obtain ⟨head', stands', descends'⟩ := kept
  rw [stands] at stands'
  cases stands'
  exact ⟨next, moved, descends.trans (Descends.mono descends' more)⟩

variable {parents : List Sha}

theorem grown_of_fresh (fresh : world.parents commit = none) :
    ∀ known isParents, world.parents known = some isParents →
      Function.update world.parents commit (some parents) known = some isParents := by
  intro known isParents there
  have apart : known ≠ commit := by
    rintro rfl
    rw [fresh] at there
    cases there
  rw [Function.update_of_ne apart]
  exact there

theorem Watch.reviewed (watch : Watch start layers forced events world)
    (review : reviews world last) :
    ∃ event, Watch start layers forced (event :: events) last ∧
      (∀ branch commit force, event ≠ .moved branch commit force) := by
  obtain ⟨branch, head, commit, parents, stands, fresh, member, rfl⟩ := review
  have grown : ∀ known isParents, world.parents known = some isParents →
      (world.push branch commit parents).parents known = some isParents := grown_of_fresh fresh
  refine ⟨.pushed branch commit, watch.event rfl grown ?_ ?_ ?_, fun _ _ _ => (nomatch ·)⟩
  · intro other kept isKept
    by_cases same : other = branch
    · subst same
      have isParent : (world.push other commit parents).Descends commit head :=
        .single ⟨parents, by simp [Branches.push], member⟩
      exact isKept.forward stands (by simp [Branches.push]) grown isParent
    · exact isKept.mono (by simp [Branches.push, same]) grown
  · rintro _ _ ⟨⟩
    exact ⟨fresh, by simp [Branches.push]⟩
  · intro other notPush _
    have apart : other ≠ branch := by
      rintro rfl
      exact notPush commit rfl
    simp [Branches.push, apart]

theorem Watch.committed (watch : Watch start layers forced events world)
    (fresh : world.parents commit = none) :
    Watch start layers forced events (world.commit commit parents) where
  log := watch.log
  grown known isParents there := grown_of_fresh fresh known isParents (watch.grown _ _ there)
  fresh := watch.fresh
  kept branch known member := by
    obtain kept | raced := watch.kept branch known member
    · exact .inl (kept.mono rfl (grown_of_fresh fresh))
    · exact .inr raced
  foreign branch head stands foreign :=
    (watch.foreign branch head stands foreign).mono rfl (grown_of_fresh fresh)
  stands := watch.stands

theorem Watch.probed (watch : Watch start layers forced events world) (branch : String) :
    Watch start layers forced (.probed branch :: events)
      { world with log := .probed branch :: world.log } :=
  watch.event rfl (fun _ _ same => same) (fun _ _ kept => kept.mono rfl fun _ _ same => same)
    (fun _ _ => (nomatch ·)) fun _ _ _ => rfl

theorem Watch.advanced {head : Sha} (watch : Watch start layers forced events world)
    (stands : world.heads branch = some head) (descends : world.Descends commit head) :
    Watch start layers forced (.moved branch commit false :: events)
      (world.move branch commit false) := by
  refine watch.event rfl (fun _ _ same => same) ?_ (fun _ _ => (nomatch ·)) ?_
  · intro other kept isKept
    by_cases same : other = branch
    · subst same
      exact isKept.forward stands (by simp [Branches.move]) (fun _ _ same => same)
        (Descends.mono descends fun _ _ same => same)
    · exact isKept.mono (by simp [Branches.move, same]) fun _ _ same => same
  · intro other _ unmoved
    have apart : other ≠ branch := by
      rintro rfl
      exact unmoved commit false rfl
    simp [Branches.move, apart]

/-- A branch that was looked at before anybody pushed, and stood where this
machine left it. -/
structure Cleared (start : Branches) (layers : List Proposal) (events : List BranchEvent)
    (branch : String) : Prop where
  seen : SeenFirst events branch
  ours : ∀ head, start.heads branch = some head → ¬ Foreign layers branch head

theorem Cleared.cons (cleared : Cleared start layers events branch) (event : BranchEvent) :
    Cleared start layers (event :: events) branch :=
  ⟨cleared.seen.cons event, cleared.ours⟩

/-- A forced move of a cleared branch races what was pushed after the look. -/
theorem Watch.overwritten (watch : Watch start layers forced events world)
    (cleared : Cleared start layers events branch) (isForced : branch ∈ forced) :
    Watch start layers forced (.moved branch commit true :: events)
      (world.move branch commit true) where
  log := by
    rw [List.cons_append, ← watch.log]
    rfl
  grown := watch.grown
  fresh other known member := by
    obtain same | old := List.mem_cons.mp member
    · cases same
    · exact watch.fresh other known old
  kept other known member := by
    obtain same | old := List.mem_cons.mp member
    · cases same
    · by_cases here : other = branch
      · subst here
        exact .inr ⟨isForced, cleared.seen.raced old commit⟩
      · obtain kept | ⟨isForced', raced⟩ := watch.kept other known old
        · exact .inl (kept.mono (by simp [Branches.move, here]) fun _ _ same => same)
        · exact .inr ⟨isForced', raced.cons _⟩
  foreign other head stands foreign := by
    by_cases here : other = branch
    · subst here
      exact absurd foreign (cleared.ours head stands)
    · exact (watch.foreign other head stands foreign).mono (by simp [Branches.move, here])
        fun _ _ same => same
  stands other unmoved := by
    have apart : other ≠ branch := by
      rintro rfl
      exact unmoved commit true List.mem_cons_self
    have stays : (world.move branch commit true).heads other = world.heads other := by
      simp [Branches.move, apart]
    rw [stays]
    obtain ⟨same, unpushed⟩ | ⟨pushed, member, isHead⟩ := watch.stands other
      fun commit force member => unmoved commit force (List.mem_cons_of_mem _ member)
    · refine .inl ⟨same, ?_⟩
      intro known member
      obtain same | old := List.mem_cons.mp member
      · cases same
      · exact unpushed known old
    · exact .inr ⟨pushed, List.mem_cons_of_mem _ member, isHead⟩

end Watching

section Operations

/-- The calls that force no branch but the cleared ones. -/
def Call.isSafe (cleared : List String) : Call → Prop
  | .updateBranch branch _ force => force = true → branch ∈ cleared
  | .createBranch _ _ | .deleteBranch _ => False
  | _ => True

/-- What holds while an operation writes: some branches are cleared. -/
def Guarded (start : Branches) (layers : List Proposal) (forced cleared : List String)
    (world : Branches) : Prop :=
  ∃ events, Watch start layers forced events world ∧
    ∀ branch ∈ cleared, branch ∈ forced ∧ Cleared start layers events branch

variable {start world last : Branches} {layers : List Proposal} {forced cleared : List String}
  {events : List BranchEvent} {branch : String} {commit : Sha}

section

variable (guarded : Guarded start layers forced cleared world)
include guarded

theorem Guarded.event (step : ∀ events, Watch start layers forced events world →
      (∀ branch ∈ cleared, branch ∈ forced ∧ Cleared start layers events branch) →
        ∃ event, Watch start layers forced (event :: events) last) :
    Guarded start layers forced cleared last := by
  obtain ⟨events, watch, isCleared⟩ := guarded
  obtain ⟨event, watch'⟩ := step events watch isCleared
  exact ⟨event :: events, watch', fun branch member =>
    ⟨(isCleared branch member).1, (isCleared branch member).2.cons event⟩⟩

theorem Guarded.reviewed (reviewing : Relation.ReflTransGen reviews world last) :
    Guarded start layers forced cleared last := by
  induction reviewing with
  | refl => exact guarded
  | tail _ review ih =>
      apply ih.event
      intro events watch _
      obtain ⟨event, watch', _⟩ := watch.reviewed review
      exact ⟨event, watch'⟩

end

theorem Guarded.does {request : Call} {result : request.Result} (isSafe : request.isSafe cleared)
    (guarded : Guarded start layers forced cleared world)
    (does : request.Does world result last) : Guarded start layers forced cleared last := by
  cases request with
  | save state =>
      obtain ⟨events, watch, isCleared⟩ := guarded
      subst does
      exact ⟨events, ⟨watch.log, watch.grown, watch.fresh, watch.kept, watch.foreign,
        watch.stands⟩, isCleared⟩
  | branchRef branch =>
      obtain ⟨_, rfl⟩ := does
      exact guarded.event fun events watch _ => ⟨_, watch.probed branch⟩
  | createCommit message tree parents =>
      obtain ⟨fresh, rfl⟩ := does
      obtain ⟨events, watch, isCleared⟩ := guarded
      exact ⟨events, watch.committed fresh, isCleared⟩
  | updateBranch branch commit force =>
      obtain ⟨⟨head, stands, forward⟩, rfl⟩ := does
      apply guarded.event
      intro events watch isCleared
      cases force with
      | false => exact ⟨_, watch.advanced stands (forward.resolve_left Bool.false_ne_true)⟩
      | true =>
          obtain ⟨isForced, cleared⟩ := isCleared branch (isSafe rfl)
          exact ⟨_, watch.overwritten cleared isForced⟩
  | createBranch branch commit => cases isSafe
  | deleteBranch branch => cases isSafe
  | _ =>
      cases does
      exact guarded

theorem ensures_guarded {Value : Type} {program : Operation Value}
    (calls : Calls (Call.isSafe cleared) program)
    (guarded : Guarded start layers forced cleared world) :
    Ensures (amid reviews Hosts) (fun _ last => Guarded start layers forced cleared last)
      program world := by
  apply Calls.keeps _ calls guarded
  rintro world request answer last isSafe ⟨middle, reviewing, hosts⟩ guarded
  have guarded := guarded.reviewed reviewing
  cases answer with
  | ok result => exact guarded.does isSafe hosts
  | error error =>
      obtain rfl | ⟨result, does⟩ := hosts
      · exact guarded
      · exact guarded.does isSafe does

end Operations

section Looking

/-- Layers with a recorded head, and the commits they name on the forge. -/
def RecordedHeads (start : Branches) (layers : List Proposal) : Prop :=
  ∀ layer ∈ layers, layer.headCommit.isSome ∧ ∀ commit, layer.headCommit = some commit ∨
    layer.pendingHeadCommit = some commit → start.parents commit ≠ none

/-- No branch was moved yet. -/
def Unmoved (events : List BranchEvent) : Prop :=
  ∀ branch commit force, .moved branch commit force ∉ events

variable {start world last : Branches} {layers : List Proposal} {forced cleared : List String}
  {events : List BranchEvent} {layer : Proposal}

theorem Unmoved.cons (unmoved : Unmoved events) {event : BranchEvent}
    (notMove : ∀ branch commit force, event ≠ .moved branch commit force) :
    Unmoved (event :: events) := by
  intro branch commit force member
  obtain same | old := List.mem_cons.mp member
  · exact notMove branch commit force same.symm
  · exact unmoved branch commit force old

/-- What holds while an operation looks at the branches. -/
def Looked (start : Branches) (layers : List Proposal) (forced cleared : List String)
    (world : Branches) : Prop :=
  ∃ events, Watch start layers forced events world ∧ Unmoved events ∧
    ∀ branch ∈ cleared, branch ∈ forced ∧ Cleared start layers events branch

section

variable (looked : Looked start layers forced cleared world)
include looked

theorem Looked.guarded : Guarded start layers forced cleared world := by
  obtain ⟨events, watch, _, isCleared⟩ := looked
  exact ⟨events, watch, isCleared⟩

theorem Looked.reviewed (reviewing : Relation.ReflTransGen reviews world last) :
    Looked start layers forced cleared last := by
  induction reviewing with
  | refl => exact looked
  | tail _ review ih =>
      obtain ⟨events, watch, unmoved, isCleared⟩ := ih
      obtain ⟨event, watch', notMove⟩ := watch.reviewed review
      exact ⟨event :: events, watch', unmoved.cons notMove, fun branch member =>
        ⟨(isCleared branch member).1, (isCleared branch member).2.cons event⟩⟩

end

/-- A branch that stands where this machine left it, or is gone, has not been
pushed to since the start. -/
theorem Watch.clears (watch : Watch start layers forced events world) (unmoved : Unmoved events)
    (recorded : RecordedHeads start layers) (member : layer ∈ layers)
    (ours : (world.heads layer.branch).all (headIsOurs layer)) :
    Cleared start layers (.probed layer.branch :: events) layer.branch := by
  obtain ⟨same, unpushed⟩ | ⟨commit, pushed, isHead⟩ := watch.stands layer.branch
    (unmoved layer.branch)
  · refine ⟨⟨[], events, rfl, unpushed⟩, ?_⟩
    intro head stands foreign
    rw [same, stands, Option.all_some, foreign layer member rfl] at ours
    cases ours
  · obtain ⟨isSome, known⟩ := recorded layer member
    obtain ⟨head, isRecorded⟩ := Option.isSome_iff_exists.mp isSome
    rw [isHead, Option.all_some, headIsOurs, isRecorded] at ours
    have named : layer.headCommit = some commit ∨ layer.pendingHeadCommit = some commit := by
      simpa [isRecorded] using ours
    exact absurd (watch.fresh layer.branch commit pushed) (known commit named)

theorem Looked.probed (looked : Looked start layers forced cleared world) (branch : String) :
    Looked start layers forced cleared { world with log := .probed branch :: world.log } := by
  obtain ⟨events, watch, unmoved, isCleared⟩ := looked
  exact ⟨.probed branch :: events, watch.probed branch, unmoved.cons fun _ _ _ => (nomatch ·),
    fun other member => ⟨(isCleared other member).1, (isCleared other member).2.cons _⟩⟩

theorem Looked.of_subset {fewer : List String} (looked : Looked start layers forced cleared world)
    (subset : ∀ branch ∈ fewer, branch ∈ cleared) : Looked start layers forced fewer world := by
  obtain ⟨events, watch, unmoved, isCleared⟩ := looked
  exact ⟨events, watch, unmoved, fun branch member => isCleared branch (subset branch member)⟩

theorem Looked.clears (looked : Looked start layers forced cleared world)
    (recorded : RecordedHeads start layers) (member : layer ∈ layers)
    (isForced : layer.branch ∈ forced)
    (ours : (world.heads layer.branch).all (headIsOurs layer)) :
    Looked start layers forced (cleared ++ [layer.branch])
      { world with log := .probed layer.branch :: world.log } := by
  obtain ⟨events, watch, unmoved, isCleared⟩ := looked
  refine ⟨.probed layer.branch :: events, watch.probed _, unmoved.cons fun _ _ _ => (nomatch ·), ?_⟩
  intro branch isMember
  obtain old | new := List.mem_append.mp isMember
  · exact ⟨(isCleared branch old).1, (isCleared branch old).2.cons _⟩
  · rw [List.mem_singleton.mp new]
    exact ⟨isForced, watch.clears unmoved recorded member ours⟩

/-- The pass over the layers: where it finds none with commits of somebody else,
their branches are cleared. -/
theorem ensures_firstDiverged_looked (recorded : RecordedHeads start layers)
    {looking : List Proposal} (members : ∀ layer ∈ looking, layer ∈ layers)
    (areForced : ∀ layer ∈ looking, layer.branch ∈ forced)
    (looked : Looked start layers forced cleared world) :
    Ensures (amid reviews Hosts) (fun ending last =>
        Looked start layers forced cleared last ∧
          (ending = .returned none →
            Looked start layers forced (cleared ++ looking.map Proposal.branch) last))
      (firstDiverged looking) world := by
  induction looking generalizing cleared world with
  | nil =>
      refine ⟨⟨looked, (nomatch ·)⟩, looked, fun _ => ?_⟩
      rw [List.map_nil, List.append_nil]
      exact looked
  | cons layer looking ih =>
      apply ensures_perform ⟨looked, (nomatch ·)⟩
      · rintro error last ⟨middle, reviewing, hosts⟩
        have looked := looked.reviewed reviewing
        have looked : Looked start layers forced cleared last := by
          obtain rfl | ⟨found, _, rfl⟩ := hosts
          · exact looked
          · exact looked.probed layer.branch
        exact ⟨⟨looked, (nomatch ·)⟩, looked, (nomatch ·)⟩
      · rintro found _ ⟨middle, reviewing, isHead, rfl⟩
        have looked := looked.reviewed reviewing
        have goes : found.all (headIsOurs layer) →
            Ensures (amid reviews Hosts) (fun ending last =>
              Looked start layers forced cleared last ∧
                (ending = .returned none → Looked start layers forced
                  (cleared ++ (layer :: looking).map Proposal.branch) last))
              (firstDiverged looking)
              { middle with log := .probed layer.branch :: middle.log } := by
          intro ours
          rw [isHead] at ours
          have cleared' := looked.clears recorded (members layer List.mem_cons_self)
            (areForced layer List.mem_cons_self) ours
          apply (ih (fun other member => members other (List.mem_cons_of_mem _ member))
            (fun other member => areForced other (List.mem_cons_of_mem _ member)) cleared').mono
          rintro ending last ⟨stays, clears⟩
          refine ⟨stays.of_subset fun branch => List.mem_append_left _, ?_⟩
          intro returned
          apply (clears returned).of_subset
          intro branch member
          simpa using member
        cases found with
        | none => exact goes rfl
        | some head =>
            dsimp only
            split
            · rename_i ours
              exact goes ours
            · have stays := looked.probed layer.branch
              exact ⟨⟨stays, (nomatch ·)⟩, stays, (nomatch ·)⟩

end Looking

section Rebasing

variable {start : Branches} {state : OriginState} {cleared : List String} {sub : Option Text}
  {parent : Sha} {front back : List Proposal} {layer : Proposal} {place : Nat} {Value : Type}
  {world : Branches} {spec : OriginSpec}

theorem Guarded.of_subset {layers : List Proposal} {forced fewer : List String}
    (guarded : Guarded start layers forced cleared world)
    (subset : ∀ branch ∈ fewer, branch ∈ cleared) : Guarded start layers forced fewer world := by
  obtain ⟨events, watch, isCleared⟩ := guarded
  exact ⟨events, watch, fun branch member => isCleared branch (subset branch member)⟩

theorem openFrom_subset : ∀ layer ∈ state.openFrom place, layer ∈ state.openLayers := by
  intro layer member
  obtain ⟨inChain, isOpen⟩ := List.mem_filter.mp member
  exact List.mem_filter.mpr ⟨List.mem_of_mem_drop inChain, isOpen⟩

/-- The rule for an operation that looks at the layers from a place up before it
writes. -/
theorem ensures_ready {next : Option Proposal → Operation Value}
    (recorded : RecordedHeads start state.openLayers)
    (stops : ∀ above, Calls (Call.isSafe []) (next (some above)))
    (goes : Calls (Call.isSafe ((state.openFrom place).map Proposal.branch)) (next none)) :
    Ensures (amid reviews Hosts) (fun _ last => Guarded start state.openLayers
        ((state.openFrom place).map Proposal.branch) [] last)
      (ensureCascadeReady state place >>= next) start := by
  have fresh : Looked start state.openLayers ((state.openFrom place).map Proposal.branch) []
      start :=
    ⟨[], .initial, fun _ _ _ => (nomatch ·), fun _ => (nomatch ·)⟩
  unfold ensureCascadeReady
  cases state.ensureReplayable place with
  | error error => exact ⟨fresh.guarded, fresh.guarded⟩
  | ok _ =>
      apply (ensures_firstDiverged_looked recorded openFrom_subset
        (fun layer => List.mem_map_of_mem) fresh).bind
      · rintro found last ⟨looked, clears⟩
        cases found with
        | some above => exact ensures_guarded (stops above) looked.guarded
        | none =>
            apply (ensures_guarded goes (by simpa using (clears rfl).guarded)).mono
            intro ending last guarded
            exact guarded.of_subset fun _ => (nomatch ·)
      · exact fun _ _ holds => holds.1.guarded
      · exact fun _ holds => holds.1.guarded

theorem Call.isQuiet.isSafe {request : Call} (quiet : request.isQuiet) :
    request.isSafe cleared := by
  cases request <;> trivial

theorem calls_replayLayer (there : state.proposals[place]? = some layer)
    (isCleared : layer.isOpen → layer.branch ∈ cleared) :
    Calls (Call.isSafe cleared) (replayLayer sub (state, parent) place) := by
  unfold replayLayer
  dsimp only
  rw [there]
  dsimp only
  split
  · trivial
  · rename_i opened
    apply (calls_orStop _).bind
    intro writes
    apply (calls_perform (by trivial)).bind
    intro tree
    apply (calls_perform (by trivial)).bind
    intro commit
    apply Calls.bind
    · exact (calls_perform (by trivial)).bind fun _ => trivial
    · intro state
      apply (calls_perform fun _ => isCleared (by simpa using opened)).bind
      intro _
      exact (calls_perform (by trivial)).bind fun _ => trivial

theorem calls_replays (chain : state.proposals = front ++ back)
    (areCleared : ∀ layer ∈ back, layer.isOpen → layer.branch ∈ cleared) :
    Calls (Call.isSafe cleared) (Program.forEach (replayLayer sub) (state, parent)
      (List.range' front.length back.length)) := by
  induction back generalizing front state parent with
  | nil => trivial
  | cons layer back ih =>
      have there : state.proposals[front.length]? = some layer := by
        rw [chain, List.getElem?_append_right (Nat.le_refl _), Nat.sub_self,
          List.getElem?_cons_zero]
      have rest : ∀ layer ∈ back, layer.isOpen → layer.branch ∈ cleared :=
        fun other member => areCleared other (List.mem_cons_of_mem _ member)
      rw [List.length_cons, List.range'_succ]
      apply (calls_replayLayer there (areCleared layer List.mem_cons_self)).bind_of_returns
        (returns_replayLayer chain)
      rintro _ (⟨_, rfl⟩ | ⟨_, commit, rfl⟩)
      · have next : front.length + 1 = (front ++ [layer]).length := by simp
        rw [next]
        exact ih (by rw [chain]; simp) rest
      · have next : front.length + 1 = (front ++ [layer.pushed commit parent]).length := by simp
        rw [next]
        exact ih (by simp) rest

theorem calls_cascadeReplays (areCleared : ∀ layer ∈ state.openFrom place, layer.branch ∈ cleared) :
    Calls (Call.isSafe cleared) (cascadeReplays sub state place parent) := by
  unfold cascadeReplays
  refine Calls.bind ?_ fun _ => by trivial
  by_cases inside : place ≤ state.proposals.length
  · have chain := (List.take_append_drop place state.proposals).symm
    have front : (state.proposals.take place).length = place := List.length_take_of_le inside
    have replays : Calls (Call.isSafe cleared) (Program.forEach (replayLayer sub) (state, parent)
        (List.range' (state.proposals.take place).length (state.proposals.drop place).length)) :=
      calls_replays chain fun layer member isOpen =>
        areCleared layer (List.mem_filter.mpr ⟨member, isOpen⟩)
    rwa [front, List.length_drop] at replays
  · rw [Nat.sub_eq_zero_of_le (Nat.le_of_not_le inside)]
    trivial

theorem openFrom_setLayer (change : Proposal → Proposal) :
    (state.setLayer place change).openFrom (place + 1) = state.openFrom (place + 1) := by
  unfold OriginState.openFrom OriginState.setLayer
  dsimp only
  rw [List.drop_modify_of_lt]
  exact Nat.lt_succ_self place

/-- An amend looks at the layers above, and forces no other branch. -/
theorem ensures_amendLayer_guarded {share : Share}
    (recorded : RecordedHeads start state.openLayers) :
    Ensures (amid reviews Hosts) (fun _ last => Guarded start state.openLayers
        ((state.openFrom (place + 1)).map Proposal.branch) [] last)
      (amendLayer share state place layer) start := by
  unfold amendLayer
  apply ensures_ready recorded
  · intro above
    trivial
  · apply (calls_perform (by trivial)).bind
    intro found
    split
    · trivial
    · split
      · trivial
      · apply (calls_orStop _).bind
        intro fresh
        split
        · trivial
        · apply Calls.bind
          · exact (calls_collectAmendChanges share fresh layer _ _).mono fun _ => Call.isQuiet.isSafe
          · intro collected
            apply (calls_perform (by trivial)).bind
            intro tree
            apply (calls_perform (by trivial)).bind
            intro commit
            unfold announce
            rw [Program.bind_assoc]
            apply (calls_perform (by trivial)).bind
            intro _
            apply (calls_perform fun force => (nomatch force)).bind
            intro _
            apply (calls_perform (by trivial)).bind
            intro _
            apply (calls_perform (by trivial)).bind
            intro _
            apply Calls.bind
            · apply calls_cascadeReplays
              rw [Nat.succ_eq_add_one, openFrom_setLayer, openFrom_setLayer]
              exact fun layer => List.mem_map_of_mem
            · exact fun _ => by trivial

theorem ensures_rebaseFrom_guarded (recorded : RecordedHeads start state.openLayers) :
    Ensures (amid reviews Hosts) (fun _ last => Guarded start state.openLayers
        ((state.openFrom place).map Proposal.branch) [] last)
      (rebaseFrom spec state place parent) start := by
  unfold rebaseFrom
  apply ensures_ready recorded
  · intro above
    trivial
  · apply Calls.bind
    · apply calls_cascadeReplays
      exact fun layer => List.mem_map_of_mem
    · intro replayed
      exact (calls_perform (by trivial)).bind fun _ => by trivial

theorem calls_dissolveRecorded : Calls (Call.isSafe cleared) (dissolveRecorded state) := by
  have dissolved : Calls (Call.isSafe cleared) (do
      perform (.save { state with stackNumber := none })
      return { state with stackNumber := none } : Operation OriginState) :=
    (calls_perform (by trivial)).bind fun _ => by trivial
  unfold dissolveRecorded
  split
  · trivial
  · refine ⟨by trivial, ?_⟩
    intro answer
    cases answer with
    | ok _ => exact dissolved
    | error error =>
        change Calls _ (if alreadyDissolved error then _ else _)
        split
        · exact dissolved
        · trivial

theorem calls_recreateStack : Calls (Call.isSafe cleared) (recreateStack state) := by
  unfold recreateStack
  dsimp only
  split
  · refine ⟨by trivial, ?_⟩
    intro answer
    cases answer <;> trivial
  · trivial

theorem Guarded.of_openFrom (guarded : Guarded start state.openLayers
      ((state.openFrom place).map Proposal.branch) [] world) :
    Guarded start state.openLayers (state.openLayers.map Proposal.branch) [] world := by
  obtain ⟨events, watch, _⟩ := guarded
  refine ⟨events, ⟨watch.log, watch.grown, watch.fresh, ?_, watch.foreign, watch.stands⟩,
    fun _ => (nomatch ·)⟩
  intro branch commit pushed
  apply (watch.kept branch commit pushed).imp_right
  rintro ⟨isForced, raced⟩
  obtain ⟨layer, member, rfl⟩ := List.mem_map.mp isForced
  exact ⟨List.mem_map_of_mem (openFrom_subset layer member), raced⟩

/-- The rule for a repair that looks at the layers its plan replays. -/
theorem ensures_planReady {plan : RepairPlan} {next : Unit → Operation Value}
    (recorded : RecordedHeads start state.openLayers)
    (goes : ∀ cleared, (∀ place parent, plan.survivor = some (place, parent) →
      ∀ layer ∈ state.openFrom place, layer.branch ∈ cleared) →
        Calls (Call.isSafe cleared) (next ())) :
    Ensures (amid reviews Hosts) (fun _ last => Guarded start state.openLayers
        (state.openLayers.map Proposal.branch) [] last)
      (ensurePlanReady state plan >>= next) start := by
  unfold ensurePlanReady
  cases survivor : plan.survivor with
  | none =>
      apply ensures_guarded
      · apply goes
        rw [survivor]
        exact fun _ _ => (nomatch ·)
      · exact ⟨[], .initial, fun _ => (nomatch ·)⟩
  | some place =>
      dsimp only
      rw [Program.bind_assoc]
      apply (ensures_ready recorded _ _).mono
      · exact fun _ _ => Guarded.of_openFrom
      · exact fun above => trivial
      · apply goes
        rw [survivor]
        rintro _ _ ⟨⟩
        exact fun layer => List.mem_map_of_mem

/-- A long repair looks at the layers it replays, and forces no other branch. -/
theorem ensures_rebuildChain_guarded (recorded : RecordedHeads start state.openLayers) :
    Ensures (amid reviews Hosts) (fun _ last => Guarded start state.openLayers
        (state.openLayers.map Proposal.branch) [] last)
      (rebuildChain spec state) start := by
  unfold rebuildChain
  apply ensures_planReady recorded
  intro cleared areCleared
  apply calls_dissolveRecorded.bind_of_returns (returns_dissolveRecorded state)
  rintro _ rfl
  apply Calls.bind
  · unfold replayPlan
    split
    · trivial
    · rename_i place parent survivor
      exact calls_cascadeReplays (areCleared place parent survivor)
  · intro replayed
    apply Calls.bind
    · apply calls_forEach
      intro _ wanted
      exact calls_perform (by trivial)
    · intro _
      apply calls_recreateStack.bind
      intro recreated
      exact (calls_perform (by trivial)).bind fun _ => by trivial

end Rebasing

/-- What an operation left of the reviewers' commits: each one is still on its
branch, or was pushed to a branch the operation forces between its look and its
move; a branch that was not ours at the start keeps its head. -/
def Spares (start last : Branches) (layers : List Proposal) (forced : List String) : Prop :=
  ∃ events, last.log = events ++ start.log ∧
    (∀ branch commit, .pushed branch commit ∈ events →
      Kept last branch commit ∨ (branch ∈ forced ∧ Raced events branch commit)) ∧
    ∀ branch head, start.heads branch = some head → Foreign layers branch head →
      Kept last branch head

theorem Guarded.spares {start last : Branches} {layers : List Proposal}
    {forced cleared : List String} (guarded : Guarded start layers forced cleared last) :
    Spares start last layers forced := by
  obtain ⟨events, watch, _⟩ := guarded
  exact ⟨events, watch.log, watch.kept, watch.foreign⟩

/-- Whatever reviewers push beside an amend or a repair, and wherever it ends, a
commit is lost only if it was pushed to a replayed layer after the operation had
looked at that branch and before it forced it; the amended layer is moved
forward only. -/
theorem rebase_spares_reviews {start : Branches} {state : OriginState}
    (recorded : RecordedHeads start state.openLayers) :
    (∀ share place layer ending last,
      Runs (amid reviews Hosts) start (amendLayer share state place layer) ending last →
        Spares start last state.openLayers ((state.openFrom (place + 1)).map Proposal.branch)) ∧
      ∀ spec ending last, Runs (amid reviews Hosts) start (repairChain spec state) ending last →
        Spares start last state.openLayers (state.openLayers.map Proposal.branch) := by
  constructor
  · intro share place layer ending last run
    exact ((ensures_amendLayer_guarded recorded).of_run run).spares
  · intro spec ending last run
    unfold repairChain at run
    split at run
    · have untouched : Guarded start state.openLayers (state.openLayers.map Proposal.branch) []
          start := ⟨[], .initial, fun _ => (nomatch ·)⟩
      cases run <;> exact untouched.spares
    · split at run
      · exact ((ensures_rebaseFrom_guarded recorded).of_run run).of_openFrom.spares
      · exact ((ensures_rebuildChain_guarded recorded).of_run run).spares

section Samples

/-- Two layers, the upper one on an old head of the lower. -/
def staleLayers : OriginState :=
  stackedChain [bareLayer 1 .opened (some "trunk") (some "a"),
    bareLayer 2 .opened (some "old") (some "b")]

def staleChain : Branches where
  saved := staleLayers
  heads branch := if branch = "share-1" then some "a" else if branch = "share-2" then some "b"
    else none
  parents commit := if commit = "a" then some ["trunk"] else if commit = "b" then some ["old"]
    else none
  made := ["a", "b"]
  log := []

/-- A reviewer pushes to the upper layer, once. -/
def review (world : Branches) : Branches :=
  match world.heads "share-2" with
  | some head =>
      if world.parents "theirs" = none then world.push "share-2" "theirs" [head] else world
  | none => world

/-- A forge under review: the reviewer pushes before a tree is built. -/
def reviewedForge (world : Branches) (request : Call) : request.Answer × Branches :=
  branchForge (if request matches .createTree _ _ then review world else world) request

theorem review_reviews (world : Branches) :
    Relation.ReflTransGen reviews world (review world) := by
  unfold review
  split
  · rename_i head stands
    split
    · rename_i fresh
      exact .single ⟨"share-2", head, "theirs", [head], stands, fresh, List.mem_cons_self, rfl⟩
    · exact .refl
  · exact .refl

theorem reviewedForge_hosts (world : Branches) (request : Call) :
    amid reviews Hosts world request (reviewedForge world request).1
      (reviewedForge world request).2 := by
  refine ⟨_, ?_, branchForge_hosts _ request⟩
  split
  · exact review_reviews world
  · exact .refl

/-- The repair of the chain beside the review. -/
def rebasedChain : Except RemoteError (RepairOutcome × OriginState) × Branches :=
  (repairChain teamNotes staleLayers).eval reviewedForge staleChain

theorem staleChain_recorded : RecordedHeads staleChain staleLayers.openLayers := by
  intro layer member
  have either : layer = bareLayer 1 .opened (some "trunk") (some "a") ∨
      layer = bareLayer 2 .opened (some "old") (some "b") := by
    simpa [staleLayers, stackedChain, OriginState.openLayers, bareLayer] using member
  obtain rfl | rfl := either
  · refine ⟨rfl, ?_⟩
    intro commit named
    obtain rfl : "a" = commit := by simpa [bareLayer] using named
    decide
  · refine ⟨rfl, ?_⟩
    intro commit named
    obtain rfl : "b" = commit := by simpa [bareLayer] using named
    decide

theorem staleChain_run :
    Runs (amid reviews Hosts) staleChain (repairChain teamNotes staleLayers)
      (.ofExcept rebasedChain.1) rebasedChain.2 :=
  runs_eval reviewedForge_hosts _ _

/-- A review beside the repair of a chain. -/
theorem rebase_spares_reviews_stale :
    Spares staleChain rebasedChain.2 staleLayers.openLayers
      (staleLayers.openLayers.map Proposal.branch) :=
  (rebase_spares_reviews staleChain_recorded).2 teamNotes _ _ staleChain_run

/-- A commit pushed between the look and the forced move is gone. -/
theorem rebase_overwrites_review :
    ∃ (start : Branches) (state : OriginState) (result : RepairOutcome × OriginState)
      (last : Branches), RecordedHeads start state.openLayers ∧
        Runs (amid reviews Hosts) start (repairChain teamNotes state) (.returned result) last ∧
        ∃ branch commit, .pushed branch commit ∈ last.log ∧ ¬ Kept last branch commit := by
  have returns : ∃ result, rebasedChain.1 = .ok result := by
    cases ended : rebasedChain.1 with
    | ok result => exact ⟨result, rfl⟩
    | error error =>
        have isOk : rebasedChain.1.isOk = true := by decide
        rw [ended] at isOk
        cases isOk
  obtain ⟨result, returned⟩ := returns
  have run := staleChain_run
  rw [returned] at run
  refine ⟨staleChain, staleLayers, result, rebasedChain.2, staleChain_recorded, run, "share-2",
    "theirs", ?_, ?_⟩
  · decide
  · rintro ⟨head, stands, descends⟩
    have isHead : rebasedChain.2.heads "share-2" = some "commit-2" := by decide
    rw [isHead] at stands
    cases stands
    have within : ∀ child ∈ ["commit-2", "a", "trunk"],
        ∀ parent ∈ (rebasedChain.2.parents child).getD [], parent ∈ ["commit-2", "a", "trunk"] := by
      decide
    have reached : ∀ commit, rebasedChain.2.Descends "commit-2" commit →
        commit ∈ ["commit-2", "a", "trunk"] := by
      intro commit descends
      induction descends with
      | refl => exact List.mem_cons_self
      | tail _ step ih =>
          obtain ⟨parents, isParents, member⟩ := step
          exact within _ ih _ (by rw [isParents]; exact member)
    exact absurd (reached "theirs" descends) (by decide)

end Samples

end Crystalline.Remote
