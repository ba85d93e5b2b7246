import Crystalline.Remote.Repair

/-!
# The branches a share pushes to

The saved records, and a forge of branches and commits as far as a push can
tell: where each branch stands, what each commit descends from, and who moved
what.  Others may move a branch between any two calls.
-/

namespace Crystalline.Remote

open Programs

/-- What was seen of a branch, or done to it. -/
inductive BranchEvent where
  | probed (branch : String)
  | moved (branch : String) (commit : Sha) (force : Bool)
  /-- Somebody else pushed. -/
  | pushed (branch : String) (commit : Sha)
  deriving DecidableEq

/-- The records as last saved, and the forge. -/
structure Branches where
  saved : OriginState
  heads : String → Option Sha
  /-- The parents of the commits there are. -/
  parents : Sha → Option (List Sha)
  /-- The commits this machine made. -/
  made : List Sha
  /-- What happened, newest first. -/
  log : List BranchEvent

namespace Branches

variable (world : Branches)

/-- A commit is another one or comes after it. -/
def Descends : Sha → Sha → Prop :=
  Relation.ReflTransGen fun child parent =>
    ∃ parents, world.parents child = some parents ∧ parent ∈ parents

/-- A new commit of this machine. -/
def commit (sha : Sha) (parents : List Sha) : Branches :=
  { world with
    parents := Function.update world.parents sha (some parents)
    made := sha :: world.made }

/-- A branch moved by this machine. -/
def move (branch : String) (commit : Sha) (force : Bool) : Branches :=
  { world with
    heads := Function.update world.heads branch (some commit)
    log := .moved branch commit force :: world.log }

/-- A branch moved by somebody else, to a commit of theirs. -/
def push (branch : String) (commit : Sha) (parents : List Sha) : Branches :=
  { world with
    heads := Function.update world.heads branch (some commit)
    parents := Function.update world.parents commit (some parents)
    log := .pushed branch commit :: world.log }

end Branches

/-- The calls that neither save a record nor look at or move a branch. -/
def Call.isQuiet : Call → Prop
  | .save _ | .branchRef _ | .createCommit _ _ _ | .updateBranch _ _ _ | .createBranch _ _
  | .deleteBranch _ => False
  | _ => True

/-- Somebody else moves a branch to one of their commits. -/
def pushesOf (theirs : Set Sha) (world last : Branches) : Prop :=
  ∃ branch, ∃ commit ∈ theirs, ∃ parents, last = world.push branch commit parents

section Quiet

variable (share : Share) (local_ : LocalChanges)

theorem calls_collectContent (change : ProposedChange) (path : Path) (sha256 : Sha) :
    Calls Call.isQuiet (share.collectContent change path sha256 local_) :=
  (calls_orStop _).bind fun _ => (calls_perform (by trivial)).bind fun _ => trivial

theorem calls_collectChanges : Calls Call.isQuiet (share.collectChanges local_) := by
  apply calls_forEach
  intro out change
  cases change with
  | added path sha256 => exact (calls_collectContent share local_ _ _ _).bind fun _ => trivial
  | modified path sha256 => exact (calls_collectContent share local_ _ _ _).bind fun _ => trivial
  | deleted path =>
      unfold Share.collectChange
      dsimp only
      split
      · exact (calls_orStop _).bind fun _ => trivial
      · trivial

theorem calls_collectAmendChanges (layer : Proposal) (below : Snapshot) (ownedAbove : List Path) :
    Calls Call.isQuiet (share.collectAmendChanges layer below ownedAbove local_) := by
  apply (calls_orStop _).bind
  intro kept
  apply (calls_forEach _ _ _).bind
  · intro merged
    apply (calls_forEach _ _ _).bind
    · exact fun merged => calls_orStop _
    · intro merged change
      cases change with
      | added path sha256 | modified path sha256 =>
          unfold Share.mergeFresh
          dsimp only
          split
          · trivial
          · exact (calls_collectContent share local_ _ _ _).bind fun _ => trivial
      | deleted path =>
          unfold Share.mergeFresh
          dsimp only
          split <;> trivial
  · intro merged kept
    unfold Share.rebuildEntry
    split
    · trivial
    · exact (calls_perform (by trivial)).bind fun _ => by split <;> trivial

end Quiet

/-- What a call that is carried out brings, and what it leaves. -/
def Call.Does (world : Branches) : (request : Call) → request.Result → Branches → Prop
  | .save state, _, last => last = { world with saved := state }
  | .branchRef branch, found, last =>
      found = world.heads branch ∧ last = { world with log := .probed branch :: world.log }
  | .createCommit _ _ parents, sha, last =>
      world.parents sha = none ∧ last = world.commit sha parents
  | .updateBranch branch commit force, _, last =>
      (∃ head, world.heads branch = some head ∧ (force = true ∨ world.Descends commit head)) ∧
        last = world.move branch commit force
  | .createBranch branch commit, _, last =>
      world.heads branch = none ∧ last = world.move branch commit false
  | .deleteBranch branch, _, last =>
      last = { world with heads := Function.update world.heads branch none }
  | _, _, last => last = world

/-- What the calls may answer: any of them may fail, also after it was carried
out. -/
def Hosts : Answers Branches Call Call.Answer := fun world request answer last =>
  match answer with
  | .ok result => request.Does world result last
  | .error _ => last = world ∨ ∃ result, request.Does world result last

/-- A forge that carries out what it can; it names its commits by their
number. -/
def branchForge (world : Branches) : (request : Call) → request.Answer × Branches
  | .save state => (.ok (), { world with saved := state })
  | .branchRef branch =>
      (.ok (world.heads branch), { world with log := .probed branch :: world.log })
  | .createTree _ _ => (.ok "tree", world)
  | .createCommit _ _ parents =>
      let sha := s!"commit-{world.made.length}"
      if world.parents sha = none then (.ok sha, world.commit sha parents)
      else (.error .offline, world)
  | .updateBranch branch commit force =>
      match world.heads branch with
      | none => (.error .offline, world)
      | some head =>
          if force || ((world.parents commit).getD []).contains head then
            (.ok (), world.move branch commit force)
          else (.error .offline, world)
  | .updateProposal _ _ _ _ => (.ok (), world)
  | .blob _ | .createBlob _ | .createBranch _ _ | .deleteBranch _ | .createProposal _
  | .closeProposal _ | .proposalState _ | .listOpenProposals | .listStacks _ | .createStack _
  | .extendStack _ _ | .dissolveStack _ | .writeFile _ _ | .removeFile _ =>
      (.error .offline, world)

/-- The forge with some calls failing. -/
def brokenForge (broken : Call → Bool) (world : Branches) (request : Call) :
    request.Answer × Branches :=
  if broken request then (.error .offline, world) else branchForge world request

theorem branchForge_hosts (world : Branches) (request : Call) :
    Hosts world request (branchForge world request).1 (branchForge world request).2 := by
  cases request with
  | save state => exact rfl
  | branchRef branch => exact ⟨rfl, rfl⟩
  | createTree parent writes => exact rfl
  | updateProposal number title body base => exact rfl
  | createCommit message tree parents =>
      unfold branchForge
      dsimp only
      split
      · rename_i fresh
        exact ⟨fresh, rfl⟩
      · exact .inl rfl
  | updateBranch branch commit force =>
      unfold branchForge
      dsimp only
      split
      · exact .inl rfl
      · rename_i head stands
        split
        · rename_i forward
          refine ⟨⟨head, stands, ?_⟩, rfl⟩
          obtain isForced | isParent := Bool.or_eq_true_iff.mp forward
          · exact .inl isForced
          · right
            apply Relation.ReflTransGen.single
            cases found : world.parents commit with
            | none => simp [found] at isParent
            | some parents => exact ⟨parents, rfl, by simpa [found] using isParent⟩
        · exact .inl rfl
  | _ => exact .inl rfl

theorem brokenForge_hosts (broken : Call → Bool) (world : Branches) (request : Call) :
    Hosts world request (brokenForge broken world request).1
      (brokenForge broken world request).2 := by
  unfold brokenForge
  split
  · exact .inl rfl
  · exact branchForge_hosts world request

theorem Call.isQuiet.does {request : Call} (quiet : request.isQuiet) {world last : Branches}
    {result : request.Result} (does : request.Does world result last) : last = world := by
  cases request <;> first | exact does | cases quiet

end Crystalline.Remote
