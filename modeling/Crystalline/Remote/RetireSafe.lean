import Crystalline.Remote.Forge

/-!
# One queued branch

What `retire_one` may do to the forge and to the listing it works from, by one
lemma for each of the calls it makes.
-/

namespace Crystalline.Remote

open Programs

/-- What the pass did with one queued branch. -/
inductive Retired where
  | gone
  | stays
  deriving DecidableEq, Repr

/-- `eq_ignore_ascii_case`. -/
def eqIgnoreAsciiCase (left right : String) : Bool :=
  left.toList.map Char.toLower = right.toList.map Char.toLower

/-- The smallest number, as `Iterator::min` over the pull requests kept. -/
def leastNumber (pulls : List OpenProposalRef) : Option Nat :=
  (pulls.map OpenProposalRef.number).min?

/-- `save_cleanup`: a failure is logged, not raised. -/
def saveCleanup (state : OriginState) : Operation Unit :=
  attempt (.save state) >>= fun _ => pure ()

/-- The queue without its entry at `index`, and that entry. -/
def takeAt (index : Nat) (queue : List QueuedBranch) :
    Option (QueuedBranch × List QueuedBranch) :=
  queue[index]?.map fun entry => (entry, queue.eraseIdx index)

/-- The loop of `dependents_first`, with the number of entries left to take. -/
def dependentsFirstLoop : Nat → List QueuedBranch → List QueuedBranch
  | 0, _ => []
  | count + 1, queue =>
      let next := (queue.findIdx? fun entry =>
        !queue.any fun other => other.onto = entry.branch).getD 0
      match takeAt next queue with
      | none => []
      | some (entry, rest) => entry :: dependentsFirstLoop count rest

/-- `dependents_first`: an entry is taken once no other entry still to be
worked is bound for its branch. -/
def dependentsFirst (queue : List QueuedBranch) : List QueuedBranch :=
  dependentsFirstLoop queue.length queue

/-- `retarget`: moves every pull request based on the entry's branch to its
`onto`, following the moves in the listing. -/
def retarget (entry : QueuedBranch) :
    Option BranchKept → List OpenProposalRef →
      Operation (List OpenProposalRef × Option BranchKept)
  | blocker, [] => pure ([], blocker)
  | blocker, pull :: pulls =>
      if pull.number ≠ entry.number ∧ pull.base = entry.branch then do
        match ← attempt (.updateProposal pull.number none none (some entry.onto)) with
        | .ok _ =>
            let (moved, kept) ← retarget entry blocker pulls
            pure ({ pull with base := entry.onto } :: moved, kept)
        | .error error =>
            if blocker.isNone then do
              -- A target that is gone stops every further move.
              let gone := match ← attempt (.branchRef entry.onto) with
                | .ok none => true
                | _ => false
              let kept : BranchKept :=
                ⟨some pull.number, error.text, if gone then .targetGone else .base⟩
              if gone then
                pure (pull :: pulls, some kept)
              else do
                let (moved, kept) ← retarget entry (some kept) pulls
                pure (pull :: moved, kept)
            else do
              let (moved, kept) ← retarget entry blocker pulls
              pure (pull :: moved, kept)
      else do
        let (moved, kept) ← retarget entry blocker pulls
        pure (pull :: moved, kept)

/-- `delete_or_probe`. -/
def deleteOrProbe (entry : QueuedBranch) : Operation (QueuedBranch × Retired) := do
  match ← attempt (.deleteBranch entry.branch) with
  | .ok _ => pure (entry, .gone)
  | .error error =>
      match ← attempt (.branchRef entry.branch) with
      | .ok none => pure (entry, .gone)
      | .ok (some _) =>
          if !error.isTemporary then
            pure ({ entry with kept := some ⟨none, error.text, .deleteRefused⟩ }, .stays)
          else pure ({ entry with kept := none }, .stays)
      | .error _ => pure ({ entry with kept := none }, .stays)

/-- Whether a pull request's head is in this repository. -/
def fromHere (spec : OriginSpec) (pull : OpenProposalRef) : Bool :=
  pull.headRepo.any fun repo => eqIgnoreAsciiCase repo spec.repo

/-- The open pull requests that come from the entry's branch, its own apart. -/
def comesFrom (spec : OriginSpec) (entry : QueuedBranch) (pull : OpenProposalRef) : Bool :=
  pull.number ≠ entry.number && pull.branch = entry.branch && fromHere spec pull

/-- The open pull requests based on the entry's branch, its own apart. -/
def basedOn (entry : QueuedBranch) (pull : OpenProposalRef) : Bool :=
  pull.number ≠ entry.number && pull.base = entry.branch

/-- The pull requests of merged entries bound for the branch that have still to
move onto it. -/
def awaiting (entry : QueuedBranch) (others : List QueuedBranch)
    (opened : List OpenProposalRef) : List OpenProposalRef :=
  (others.filter fun other => other.why = .merged && other.onto = entry.branch &&
    other.keptKind ≠ some .deleteRefused).flatMap fun other =>
      opened.filter (basedOn other)

/-- `retire_one`: one queued branch through the rules.  The listing and the
entry come back as the pass left them. -/
def retireOne (spec : OriginSpec) (opened : List OpenProposalRef) (entry : QueuedBranch)
    (worked pending : List QueuedBranch) :
    Operation (List OpenProposalRef × QueuedBranch × Retired) :=
  -- A delete refused for good is never sent again.
  if entry.keptKind = some .deleteRefused then do
    match ← attempt (.branchRef entry.branch) with
    | .ok none => pure (opened, entry, .gone)
    | _ => pure (opened, entry, .stays)
  else
    match leastNumber (opened.filter (comesFrom spec entry)) with
    | some number =>
        pure (opened, { entry with kept := some ⟨some number, "", .head⟩ }, .stays)
    | none =>
        let based := leastNumber (opened.filter (basedOn entry))
        match entry.why with
        | .declined | .withdrawn =>
            match based with
            | some number =>
                pure (opened, { entry with kept := some ⟨some number, "", .base⟩ }, .stays)
            | none =>
                match leastNumber (awaiting entry (worked ++ pending) opened) with
                | some number =>
                    pure (opened, { entry with kept := some ⟨some number, "", .awaited⟩ },
                      .stays)
                | none => do
                    let (entry, retired) ← deleteOrProbe entry
                    pure (opened, entry, retired)
        | .merged =>
            if entry.keptKind = some .targetGone then
              -- Never retried, only watched until nothing is based on it.
              match based, entry.kept with
              | some number, some kept =>
                  pure (opened, { entry with kept := some { kept with blockedBy := some number } },
                    .stays)
              | _, _ => do
                  let (entry, retired) ← deleteOrProbe entry
                  pure (opened, entry, retired)
            else do
              let (opened, blocker) ← retarget entry none opened
              match blocker with
              | some kept => pure (opened, { entry with kept := some kept }, .stays)
              | none => do
                  let (entry, retired) ← deleteOrProbe entry
                  pure (opened, entry, retired)

/-- What `follow_retired` makes of one other entry. -/
def followOne (gone other : QueuedBranch) : QueuedBranch :=
  if other.onto = gone.branch then
    { other with
      onto := gone.onto
      kept := if other.why = .merged &&
          (other.keptKind = some .base || other.keptKind = some .targetGone)
        then none else other.kept }
  else other

/-- `follow_retired`: a merged share's branch that is gone passes its own `onto`
to every entry bound for it. -/
def followRetired (gone : QueuedBranch) (rest : List QueuedBranch) : List QueuedBranch :=
  if gone.why ≠ .merged then rest else rest.map (followOne gone)

@[simp] theorem length_followRetired (gone : QueuedBranch) (rest : List QueuedBranch) :
    (followRetired gone rest).length = rest.length := by
  unfold followRetired
  split <;> simp

/-- The loop of `retire_branches` over the pending entries. -/
def retirePending (spec : OriginSpec) (opened : List OpenProposalRef)
    (worked : List QueuedBranch) : List QueuedBranch → Operation (List QueuedBranch)
  | [] => pure worked
  | entry :: pending => do
      let (opened, entry, retired) ← retireOne spec opened entry worked pending
      match retired with
      | .gone =>
          retirePending spec opened (followRetired entry worked) (followRetired entry pending)
      | .stays => retirePending spec opened (worked ++ [entry]) pending
  termination_by pending => pending.length
  decreasing_by all_goals simp

/-- The notice a queued branch carries when nothing could be listed. -/
def unlisted (error : RemoteError) (entry : QueuedBranch) : QueuedBranch :=
  if entry.keptKind = some .targetGone || entry.keptKind = some .deleteRefused then entry
  else { entry with kept := some ⟨none, error.text, .base⟩ }

/-- `retire_branches`. -/
def retireBranches (spec : OriginSpec) (state : OriginState) : Operation OriginState :=
  if state.retireQueue.isEmpty then pure state
  else do
    match ← attempt .listOpenProposals with
    | .error error =>
        let state := { state with retireQueue := state.retireQueue.map (unlisted error) }
        saveCleanup state
        pure state
    | .ok opened =>
        let worked ← retirePending spec opened [] (dependentsFirst state.retireQueue)
        let state := { state with retireQueue := worked }
        saveCleanup state
        pure state

/-- What a cleanup did to the forge. -/
inductive CleanupEvent where
  | moved (number : Nat) (off onto : String)
  | deleted (branch : String)
  deriving DecidableEq, Repr

/-- The branches and the open pull requests of a repository, each under its own
number, the queue as this machine last saved it, and what the cleanup did so
far. -/
structure Repository where
  branches : String → Option Sha
  pulls : List OpenProposalRef
  numbered : (pulls.map OpenProposalRef.number).Nodup
  saved : List QueuedBranch
  log : List CleanupEvent

/-- Deleting the branch closes the pull request. -/
def usesBranch (spec : OriginSpec) (branch : String) (pull : OpenProposalRef) : Bool :=
  pull.base = branch || (pull.branch = branch && fromHere spec pull)

/-- A pull request with its base moved, when it is the one. -/
def rebased (number : Nat) (onto : String) (pull : OpenProposalRef) : OpenProposalRef :=
  if pull.number = number then { pull with base := onto } else pull

@[simp] theorem rebased_number (number : Nat) (onto : String) (pull : OpenProposalRef) :
    (rebased number onto pull).number = pull.number := by
  unfold rebased
  split <;> rfl

def Repository.move (world : Repository) (pull : OpenProposalRef) (onto : String) :
    Repository where
  branches := world.branches
  pulls := world.pulls.map (rebased pull.number onto)
  numbered := by
    have same : (world.pulls.map (rebased pull.number onto)).map OpenProposalRef.number =
        world.pulls.map OpenProposalRef.number := by
      rw [List.map_map]
      apply List.map_congr_left
      intro other _
      exact rebased_number _ _ _
    rw [same]
    exact world.numbered
  saved := world.saved
  log := world.log ++ [.moved pull.number pull.base onto]

def Repository.delete (spec : OriginSpec) (world : Repository) (branch : String) :
    Repository where
  branches := Function.update world.branches branch none
  pulls := world.pulls.filter fun pull => !usesBranch spec branch pull
  numbered := world.numbered.sublist (List.filter_sublist.map _)
  saved := world.saved
  log := world.log ++ [.deleted branch]

/-- What the forge answers: any call may fail without effect. -/
inductive Cleans (spec : OriginSpec) : Answers Repository Call Call.Answer where
  | fails {world : Repository} {call : Call} (error : RemoteError) :
      Cleans spec world call (.error error) world
  | lists {world : Repository} : Cleans spec world .listOpenProposals (.ok world.pulls) world
  | probes {world : Repository} {branch : String} :
      Cleans spec world (.branchRef branch) (.ok (world.branches branch)) world
  | moves {world : Repository} {pull : OpenProposalRef} {onto : String}
      (member : pull ∈ world.pulls) (stands : (world.branches onto).isSome) :
      Cleans spec world (.updateProposal pull.number none none (some onto)) (.ok ())
        (world.move pull onto)
  | deletes {world : Repository} {branch : String}
      (stands : (world.branches branch).isSome) :
      Cleans spec world (.deleteBranch branch) (.ok ()) (world.delete spec branch)
  | saves {world : Repository} {state : OriginState} :
      Cleans spec world (.save state) (.ok ()) { world with saved := state.retireQueue }

/-- The same pull request, its base apart. -/
structure SamePull (left right : OpenProposalRef) : Prop where
  number : right.number = left.number
  branch : right.branch = left.branch
  headRepo : right.headRepo = left.headRepo

theorem SamePull.refl (pull : OpenProposalRef) : SamePull pull pull := ⟨rfl, rfl, rfl⟩

theorem SamePull.trans {first second third : OpenProposalRef}
    (left : SamePull first second) (right : SamePull second third) :
    SamePull first third :=
  ⟨right.number.trans left.number, right.branch.trans left.branch,
    right.headRepo.trans left.headRepo⟩

theorem samePull_rebased (number : Nat) (onto : String) (pull : OpenProposalRef) :
    SamePull pull (rebased number onto pull) := by
  unfold rebased
  split
  · exact ⟨rfl, rfl, rfl⟩
  · exact .refl pull

/-- What one entry may do to the forge. -/
def AllowedBy (entry : QueuedBranch) : CleanupEvent → Prop
  | .moved _ off onto => entry.why = .merged ∧ off = entry.branch ∧ onto = entry.onto
  | .deleted branch => branch = entry.branch

/-- The log of a pass over the pending entries: each entry's own events, and
after a branch that is gone the entries behind follow it. -/
inductive Rounds : List QueuedBranch → List CleanupEvent → Prop where
  | rest (pending : List QueuedBranch) : Rounds pending []
  | stays {entry : QueuedBranch} {pending : List QueuedBranch}
      {events log : List CleanupEvent}
      (allowed : ∀ event ∈ events, AllowedBy entry event) (rest : Rounds pending log) :
      Rounds (entry :: pending) (events ++ log)
  | gone {entry : QueuedBranch} {pending : List QueuedBranch}
      {events log : List CleanupEvent}
      (allowed : ∀ event ∈ events, AllowedBy entry event)
      (rest : Rounds (followRetired entry pending) log) :
      Rounds (entry :: pending) (events ++ log)

/-- The queue sends the pull requests based on `branch` to `onto`. -/
def BoundFor (queue : List QueuedBranch) (branch onto : String) : Prop :=
  ∃ entry ∈ queue, entry.branch = branch ∧ entry.onto = onto

/-- No branch of the queue is bound for itself, however long the way. -/
def Acyclic (queue : List QueuedBranch) : Prop :=
  ∀ branch, ¬ Relation.TransGen (BoundFor queue) branch branch

variable {spec : OriginSpec}

section Answers

variable {world last : Repository}

theorem Cleans.of_update {number : Nat} {onto : String}
    {answer : (Call.updateProposal number none none (some onto)).Answer}
    (answered : Cleans spec world (.updateProposal number none none (some onto)) answer last) :
    (∃ error, answer = .error error ∧ last = world) ∨
      ∃ pull ∈ world.pulls, pull.number = number ∧ answer = .ok () ∧
        last = world.move pull onto := by
  cases answered with
  | fails error => exact Or.inl ⟨error, rfl, rfl⟩
  | moves member _ => exact Or.inr ⟨_, member, rfl, rfl, rfl⟩

variable {branch : String}

theorem Cleans.of_probe {answer : (Call.branchRef branch).Answer}
    (answered : Cleans spec world (.branchRef branch) answer last) :
    last = world ∧ ∀ found, answer = .ok found → found = world.branches branch := by
  cases answered with
  | fails error => exact ⟨rfl, fun _ impossible => by cases impossible⟩
  | probes => exact ⟨rfl, fun _ equality => (Except.ok.inj equality).symm⟩

theorem Cleans.of_delete {answer : (Call.deleteBranch branch).Answer}
    (answered : Cleans spec world (.deleteBranch branch) answer last) :
    (∃ error, answer = .error error ∧ last = world) ∨
      answer = .ok () ∧ last = world.delete spec branch := by
  cases answered with
  | fails error => exact Or.inl ⟨error, rfl, rfl⟩
  | deletes _ => exact Or.inr ⟨rfl, rfl⟩

theorem Cleans.of_list {answer : Call.listOpenProposals.Answer}
    (answered : Cleans spec world .listOpenProposals answer last) :
    last = world ∧ ∀ opened, answer = .ok opened → opened = world.pulls := by
  cases answered with
  | fails error => exact ⟨rfl, fun _ impossible => by cases impossible⟩
  | lists => exact ⟨rfl, fun _ equality => (Except.ok.inj equality).symm⟩

theorem Cleans.of_save {state : OriginState} {answer : (Call.save state).Answer}
    (answered : Cleans spec world (.save state) answer last) :
    last = world ∨ last = { world with saved := state.retireQueue } := by
  cases answered with
  | fails error => exact Or.inl rfl
  | saves => exact Or.inr rfl

end Answers

/-- What working one entry may change on the forge. -/
structure Progress (entry : QueuedBranch) (before after : Repository) : Prop where
  kept : ∀ pull ∈ before.pulls, pull.number ≠ entry.number →
    ∃ other ∈ after.pulls, SamePull pull other
  events : ∃ events, after.log = before.log ++ events ∧
    ∀ event ∈ events, AllowedBy entry event
  shrinks : ∀ branch, before.branches branch = none → after.branches branch = none
  saved : after.saved = before.saved

theorem Progress.refl (entry : QueuedBranch) (world : Repository) :
    Progress entry world world where
  kept pull member _ := ⟨pull, member, .refl pull⟩
  events := ⟨[], by simp, by simp⟩
  shrinks _ missing := missing
  saved := rfl

variable {entry : QueuedBranch} {opened : List OpenProposalRef} {world : Repository}
  {left right : OpenProposalRef}

theorem Progress.trans {first second third : Repository} (left : Progress entry first second)
    (right : Progress entry second third) :
    Progress entry first third where
  kept := by
    intro pull member other
    obtain ⟨middle, middleMember, same⟩ := left.kept pull member other
    obtain ⟨after, afterMember, same'⟩ := right.kept middle middleMember
      (same.number.trans_ne other)
    exact ⟨after, afterMember, same.trans same'⟩
  events := by
    obtain ⟨early, earlyLog, earlyAllowed⟩ := left.events
    obtain ⟨late, lateLog, lateAllowed⟩ := right.events
    refine ⟨early ++ late, by rw [lateLog, earlyLog, List.append_assoc], ?_⟩
    intro event member
    rcases List.mem_append.mp member with inEarly | inLate
    · exact earlyAllowed event inEarly
    · exact lateAllowed event inLate
  shrinks branch missing := right.shrinks branch (left.shrinks branch missing)
  saved := right.saved.trans left.saved

/-- The listing shows every open pull request as it stands. -/
structure Lists (opened : List OpenProposalRef) (world : Repository) : Prop where
  shown : ∀ pull ∈ world.pulls, pull ∈ opened
  numbered : (opened.map OpenProposalRef.number).Nodup

theorem Lists.unique (lists : Lists opened world) (first : left ∈ opened) (second : right ∈ opened)
    (same : left.number = right.number) : left = right :=
  List.inj_on_of_nodup_map lists.numbered first second same

variable {pull : OpenProposalRef} {start : Repository}

theorem progress_move (world : Repository) (merged : entry.why = .merged)
    (based : pull.base = entry.branch) :
    Progress entry world (world.move pull entry.onto) where
  kept other member _ :=
    ⟨rebased pull.number entry.onto other, List.mem_map.mpr ⟨other, member, rfl⟩,
      samePull_rebased _ _ _⟩
  events := by
    refine ⟨[.moved pull.number pull.base entry.onto], rfl, ?_⟩
    intro event member
    obtain rfl := List.mem_singleton.mp member
    exact ⟨merged, based, rfl⟩
  shrinks _ missing := missing
  saved := rfl

theorem lists_move {front back : List OpenProposalRef} (onto : String)
    (lists : Lists (front ++ pull :: back) world) :
    Lists (front ++ { pull with base := onto } :: back) (world.move pull onto) where
  shown := by
    intro moved member
    obtain ⟨other, otherMember, rfl⟩ := List.mem_map.mp member
    have listed := lists.shown other otherMember
    have here : pull ∈ front ++ pull :: back := by simp
    by_cases same : other.number = pull.number
    · have equality := lists.unique listed here same
      subst equality
      simp [rebased]
    · have different : other ≠ pull := fun equality => same (by rw [equality])
      have unmoved : rebased pull.number onto other = other := by simp [rebased, same]
      rw [unmoved]
      simp only [List.mem_append, List.mem_cons] at listed ⊢
      rcases listed with inFront | rfl | inBack
      · exact Or.inl inFront
      · exact (different rfl).elim
      · exact Or.inr (Or.inr inBack)
  numbered := by simpa using lists.numbered

/-- A branch deleted by then was deleted before. -/
def Undeleted (before after : Repository) : Prop :=
  ∀ branch, .deleted branch ∈ after.log → .deleted branch ∈ before.log

theorem undeleted_move (world : Repository) (pull : OpenProposalRef) (onto : String) :
    Undeleted world (world.move pull onto) := by
  intro branch member
  simpa [Repository.move] using member

/-- The work on one entry never fails; a run of it makes progress and returns
what `returned` says. -/
def Works {Value : Type} (entry : QueuedBranch) (before : Repository)
    (returned : Value → Repository → Prop) : Ending RemoteError Value → Repository → Prop
  | .returned value, last => Progress entry before last ∧ returned value last
  | .failed _, _ => False
  | .cut, last => Progress entry before last

section Rules

variable {Value Other : Type} {entry : QueuedBranch} {start world : Repository}
  {returned : Value → Repository → Prop}

theorem ensures_works_pure {value : Value} (progress : Progress entry start world)
    (holds : returned value world) :
    Ensures (Cleans spec) (Works entry start returned)
      (pure value : Operation Value) world :=
  ⟨progress, progress, holds⟩

theorem ensures_works_attempt {call : Call}
    {next : call.Answer → Operation Value} (progress : Progress entry start world)
    (answered : ∀ answer last, Cleans spec world call answer last →
      Ensures (Cleans spec) (Works entry start returned) (next answer) last) :
    Ensures (Cleans spec) (Works entry start returned) (attempt call >>= next) world :=
  ⟨progress, answered⟩

theorem ensures_works_bind {middle : Other → Repository → Prop}
    {program : Operation Other} {next : Other → Operation Value}
    (first : Ensures (Cleans spec) (Works entry start middle) program world)
    (rest : ∀ value last, Progress entry start last → middle value last →
      Ensures (Cleans spec) (Works entry start returned) (next value) last) :
    Ensures (Cleans spec) (Works entry start returned) (program >>= next) world := by
  apply first.bind
  · intro value last holds
    exact rest value last holds.1 holds.2
  · intro error last impossible
    exact impossible.elim
  · intro last holds
    exact holds

end Rules

/-- What `retarget` returns: the listing as moved, and nothing based on the
branch left in it when nothing was refused. -/
structure Retargeted (entry : QueuedBranch) (start : Repository)
    (front pulls : List OpenProposalRef) (blocker : Option BranchKept)
    (moved : List OpenProposalRef × Option BranchKept) (last : Repository) : Prop where
  lists : Lists (front ++ moved.1) last
  same : List.Forall₂ SamePull pulls moved.1
  undeleted : Undeleted start last
  cleared : moved.2 = none →
    blocker = none ∧ ∀ pull ∈ moved.1, basedOn entry pull = false

theorem Retargeted.cons {start last : Repository} {front pulls moved : List OpenProposalRef}
    {blocker kept : Option BranchKept} {before after : OpenProposalRef}
    (same : SamePull before after) (unbased : kept = none → basedOn entry after = false)
    (rest : Retargeted entry start (front ++ [after]) pulls blocker (moved, kept) last) :
    Retargeted entry start front (before :: pulls) blocker (after :: moved, kept) last where
  lists := by simpa using rest.lists
  same := .cons same rest.same
  undeleted := rest.undeleted
  cleared := by
    intro clear
    obtain ⟨noBlocker, unbasedRest⟩ := rest.cleared clear
    refine ⟨noBlocker, ?_⟩
    intro pull member
    rcases List.mem_cons.mp member with rfl | later
    · exact unbased clear
    · exact unbasedRest pull later

theorem forall₂_samePull_refl (pulls : List OpenProposalRef) :
    List.Forall₂ SamePull pulls pulls :=
  List.forall₂_same.mpr fun pull _ => .refl pull

theorem ensures_retarget (merged : entry.why = .merged) (apart : entry.onto ≠ entry.branch)
    (pulls : List OpenProposalRef) :
    ∀ (front : List OpenProposalRef) (blocker : Option BranchKept) (world : Repository),
      Progress entry start world → Undeleted start world → Lists (front ++ pulls) world →
      Ensures (Cleans spec) (Works entry start (Retargeted entry start front pulls blocker))
        (retarget entry blocker pulls) world := by
  induction pulls with
  | nil =>
      intro front blocker world progress undeleted lists
      apply ensures_works_pure progress
      exact ⟨lists, .nil, undeleted, fun clear => ⟨clear, by simp⟩⟩
  | cons pull pulls ih =>
      intro front blocker world progress undeleted lists
      rw [retarget]
      have listed : Lists ((front ++ [pull]) ++ pulls) world := by simpa using lists
      split
      · rename_i based
        apply ensures_works_attempt progress
        intro answer last answered
        rcases answered.of_update with ⟨error, rfl, rfl⟩ | ⟨other, member, number, rfl, rfl⟩
        · -- The move was refused: the listing stays as it is.
          cases blocker with
          | none =>
              apply ensures_works_attempt progress
              intro probed last answered
              obtain ⟨rfl, _⟩ := answered.of_probe
              dsimp only
              split
              · apply ensures_works_pure progress
                exact ⟨lists, forall₂_samePull_refl _, undeleted,
                  fun clear => by simp at clear⟩
              · apply ensures_works_bind
                  (ih (front ++ [pull]) _ _ progress undeleted listed)
                intro moved last progress' rest
                apply ensures_works_pure progress'
                have noneLeft : moved.2 ≠ none := fun clear => by
                  simpa using (rest.cleared clear).1
                exact ⟨by simpa using rest.lists, .cons (.refl pull) rest.same,
                  rest.undeleted, fun clear => (noneLeft clear).elim⟩
          | some kept =>
              apply ensures_works_bind
                (ih (front ++ [pull]) (some kept) _ progress undeleted listed)
              intro moved last progress' rest
              apply ensures_works_pure progress'
              exact Retargeted.cons (.refl pull)
                (fun clear => by simpa using (rest.cleared clear).1) rest
        · -- The pull request stands on the target now.
          have isPull : other = pull :=
            lists.unique (lists.shown other member) (by simp) number
          subst isPull
          have moves := progress.trans (progress_move world merged based.2)
          have listed' : Lists ((front ++ [{ other with base := entry.onto }]) ++ pulls)
              (world.move other entry.onto) := by
            simpa using lists_move entry.onto lists
          apply ensures_works_bind (ih _ blocker _ moves
            (fun branch member => undeleted branch (undeleted_move _ _ _ branch member)) listed')
          intro moved last progress' rest
          apply ensures_works_pure progress'
          exact Retargeted.cons ⟨rfl, rfl, rfl⟩
            (fun _ => by simp [basedOn, apart]) rest
      · rename_i unbased
        apply ensures_works_bind (ih (front ++ [pull]) blocker _ progress undeleted listed)
        intro moved last progress' rest
        apply ensures_works_pure progress'
        exact Retargeted.cons (.refl pull)
          (fun _ => by simpa [basedOn] using unbased) rest

/-- An entry with another notice. -/
structure SameEntry (left right : QueuedBranch) : Prop where
  number : right.number = left.number
  branch : right.branch = left.branch
  onto : right.onto = left.onto
  why : right.why = left.why

/-- What the work on one entry returns. -/
structure Retiring (entry : QueuedBranch) (start : Repository)
    (opened : List OpenProposalRef) (result : QueuedBranch × Retired)
    (last : Repository) : Prop where
  same : SameEntry entry result.1
  lists : Lists opened last
  gone : result.2 = .gone → last.branches entry.branch = none
  stays : result.2 = .stays → Undeleted start last

/-- Nothing but the share's own pull request uses the branch. -/
def Unused (spec : OriginSpec) (entry : QueuedBranch) (opened : List OpenProposalRef) : Prop :=
  ∀ pull ∈ opened, comesFrom spec entry pull = false ∧ basedOn entry pull = false

theorem progress_delete (lists : Lists opened world) (unused : Unused spec entry opened) :
    Progress entry world (world.delete spec entry.branch) where
  kept := by
    intro pull member other
    obtain ⟨elsewhere, unbased⟩ := unused pull (lists.shown pull member)
    refine ⟨pull, List.mem_filter.mpr ⟨member, ?_⟩, .refl pull⟩
    have notBase : pull.base ≠ entry.branch := by
      simpa [basedOn, other] using unbased
    have notHead : pull.branch = entry.branch → fromHere spec pull = false := by
      simpa [comesFrom, other] using elsewhere
    simpa [usesBranch, notBase, imp_iff_not_or] using notHead
  events := by
    refine ⟨[.deleted entry.branch], rfl, ?_⟩
    intro event member
    obtain rfl := List.mem_singleton.mp member
    exact rfl
  shrinks := by
    intro branch missing
    by_cases same : branch = entry.branch
    · simp [Repository.delete, same]
    · simpa [Repository.delete, same] using missing
  saved := rfl

theorem lists_delete {branch : String} (lists : Lists opened world) :
    Lists opened (world.delete spec branch) where
  shown pull member := lists.shown pull (List.mem_of_mem_filter member)
  numbered := lists.numbered

theorem ensures_deleteOrProbe {start world : Repository} (progress : Progress entry start world)
    (undeleted : Undeleted start world) (lists : Lists opened world)
    (unused : Unused spec entry opened) :
    Ensures (Cleans spec) (Works entry start (Retiring entry start opened))
      (deleteOrProbe entry) world := by
  rw [deleteOrProbe]
  apply ensures_works_attempt progress
  intro answer last answered
  rcases answered.of_delete with ⟨error, rfl, rfl⟩ | ⟨rfl, rfl⟩
  · apply ensures_works_attempt progress
    intro probed last answered
    obtain ⟨rfl, found⟩ := answered.of_probe
    have stays : ∀ kept, Retiring entry start opened ({ entry with kept := kept }, .stays) last :=
      fun kept => ⟨⟨rfl, rfl, rfl, rfl⟩, lists, nofun,
        fun _ => undeleted⟩
    cases probed with
    | error error => exact ensures_works_pure progress (stays none)
    | ok probe =>
        cases probe with
        | none =>
            apply ensures_works_pure progress
            exact ⟨⟨rfl, rfl, rfl, rfl⟩, lists, fun _ => (found none rfl).symm,
              nofun⟩
        | some sha =>
            dsimp only
            split
            · exact ensures_works_pure progress (stays _)
            · exact ensures_works_pure progress (stays _)
  · apply ensures_works_pure (progress.trans (progress_delete lists unused))
    exact ⟨⟨rfl, rfl, rfl, rfl⟩, lists_delete lists, fun _ => by simp [Repository.delete],
      nofun⟩

theorem leastNumber_eq_none {pulls : List OpenProposalRef} :
    leastNumber pulls = none ↔ pulls = [] := by
  simp [leastNumber, List.min?_eq_none_iff]

theorem comesFrom_same (same : SamePull left right) :
    comesFrom spec entry right = comesFrom spec entry left := by
  simp [comesFrom, fromHere, same.number, same.branch, same.headRepo]

theorem comesFrom_moved {pulls moved : List OpenProposalRef}
    (same : List.Forall₂ SamePull pulls moved)
    (elsewhere : ∀ pull ∈ pulls, comesFrom spec entry pull = false) :
    ∀ pull ∈ moved, comesFrom spec entry pull = false := by
  induction same with
  | nil => simp
  | cons first _ ih =>
      intro pull member
      rcases List.mem_cons.mp member with rfl | later
      · rw [comesFrom_same first]
        exact elsewhere _ List.mem_cons_self
      · exact ih (fun other inRest => elsewhere other (List.mem_cons_of_mem _ inRest))
          pull later

/-- What `retire_one` returns: the listing, the entry and what became of it. -/
def Retires (entry : QueuedBranch) (start : Repository)
    (result : List OpenProposalRef × QueuedBranch × Retired) (last : Repository) : Prop :=
  Retiring entry start result.1 result.2 last

theorem ensures_retireOne (worked pending : List QueuedBranch) (apart : entry.onto ≠ entry.branch)
    (lists : Lists opened start) :
    Ensures (Cleans spec) (Works entry start (Retires entry start))
      (retireOne spec opened entry worked pending) start := by
  have progress := Progress.refl entry start
  have undeleted : Undeleted start start := fun _ member => member
  have stays : ∀ kept,
      Retires entry start (opened, { entry with kept := kept }, .stays) start :=
    fun kept => ⟨⟨rfl, rfl, rfl, rfl⟩, lists, nofun,
      fun _ => undeleted⟩
  have deletes : ∀ {moved : List OpenProposalRef} {world : Repository},
      Progress entry start world → Undeleted start world → Lists moved world →
      Unused spec entry moved →
      Ensures (Cleans spec) (Works entry start (Retires entry start))
        (deleteOrProbe entry >>= fun result => pure (moved, result)) world := by
    intro moved world progress undeleted lists unused
    apply ensures_works_bind (ensures_deleteOrProbe progress undeleted lists unused)
    intro result last progress' retiring
    exact ensures_works_pure progress' retiring
  rw [retireOne]
  split
  · apply ensures_works_attempt progress
    intro answer last answered
    obtain ⟨rfl, found⟩ := answered.of_probe
    split
    · apply ensures_works_pure progress
      exact ⟨⟨rfl, rfl, rfl, rfl⟩, lists, fun _ => (found none rfl).symm,
        nofun⟩
    · exact ensures_works_pure progress (stays entry.kept)
  · split
    · exact ensures_works_pure progress (stays _)
    · rename_i noHead
      have elsewhere : ∀ pull ∈ opened, comesFrom spec entry pull = false := by
        have empty := leastNumber_eq_none.mp noHead
        simpa [List.filter_eq_nil_iff] using empty
      -- Nothing based on the branch leaves nothing that uses it.
      have unused : leastNumber (opened.filter (basedOn entry)) = none →
          Unused spec entry opened := by
        intro noBase pull member
        have empty := leastNumber_eq_none.mp noBase
        refine ⟨elsewhere pull member, ?_⟩
        simpa using (List.filter_eq_nil_iff.mp empty) pull member
      dsimp only
      split
      -- A declined and a withdrawn branch go the same way.
      iterate 2
        · split
          · exact ensures_works_pure progress (stays _)
          · rename_i noBase
            split
            · exact ensures_works_pure progress (stays _)
            · exact deletes progress undeleted lists (unused noBase)
      · rename_i merged
        split
        · rename_i watched
          split
          · exact ensures_works_pure progress (stays _)
          · rename_i noPair
            apply deletes progress undeleted lists
            apply unused
            -- The notice is there, so nothing can be based on the branch.
            cases noBase : leastNumber (opened.filter (basedOn entry)) with
            | none => rfl
            | some number =>
                cases notice : entry.kept with
                | none =>
                    simp [QueuedBranch.keptKind, notice] at watched
                | some kept => exact (noPair number kept noBase notice).elim
        · apply ensures_works_bind
            (ensures_retarget merged apart opened [] none start progress undeleted lists)
          intro moved last progress' rest
          split
          · rename_i kept
            apply ensures_works_pure progress'
            exact ⟨⟨rfl, rfl, rfl, rfl⟩, rest.lists,
              nofun, fun _ => rest.undeleted⟩
          · rename_i clear
            apply deletes progress' rest.undeleted rest.lists
            intro pull member
            exact ⟨comesFrom_moved rest.same elsewhere pull member,
              (rest.cleared clear).2 pull member⟩

end Crystalline.Remote
