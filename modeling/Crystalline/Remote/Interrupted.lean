import Crystalline.Remote.Branches
import Crystalline.Remote.Replays

/-!
# A share cut off half-way

A push is announced in the saved record before the branch moves.  Between two
attempts the branch stands at the recorded head or at the announced one, save
where an attempt that took over a half-finished push announced its own commit
and went no further.
-/

namespace Crystalline.Remote

open Programs

section Records

/-- No other record has the number or the branch of the one at the index. -/
def Sole (layers : List Proposal) (index : Nat) : Prop :=
  ∀ layer other record, layers[index]? = some layer → layers[other]? = some record →
    other ≠ index → record.number ≠ layer.number ∧ record.branch ≠ layer.branch

/-- A change of a record that keeps whose it is. -/
def KeepsName (change : Proposal → Proposal) : Prop :=
  ∀ layer, (change layer).number = layer.number ∧ (change layer).branch = layer.branch

/-- A change that records a finished push of the commit. -/
def Finishes (commit : Sha) (change : Proposal → Proposal) : Prop :=
  ∀ layer, (change layer).headCommit = some commit ∧ (change layer).pendingHeadCommit = none

theorem keepsName_announcing (commit : Sha) :
    KeepsName fun layer => layer.announcing commit := fun _ => ⟨rfl, rfl⟩

theorem keepsName_pushed (commit base : Sha) :
    KeepsName fun layer => layer.pushed commit base := fun _ => ⟨rfl, rfl⟩

theorem finishes_pushed (commit base : Sha) :
    Finishes commit fun layer => layer.pushed commit base := fun _ => ⟨rfl, rfl⟩

theorem keepsName_amended (share : Share) (collected : CollectedChanges) (commit base : Sha) :
    KeepsName (share.amended collected commit base) := fun _ => ⟨rfl, rfl⟩

theorem finishes_amended (share : Share) (collected : CollectedChanges) (commit base : Sha) :
    Finishes commit (share.amended collected commit base) := fun _ => ⟨rfl, rfl⟩

theorem setLayer_getElem? (state : OriginState) (place index : Nat) (change : Proposal → Proposal) :
    (state.setLayer place change).proposals[index]? =
      if place = index then (state.proposals[index]?).map change
      else state.proposals[index]? := by
  rw [OriginState.setLayer, List.getElem?_modify]
  split <;> simp

theorem Sole.setLayer {state : OriginState} {index place : Nat} {change : Proposal → Proposal}
    (sole : Sole state.proposals index) (keeps : KeepsName change) :
    Sole (state.setLayer place change).proposals index := by
  have named : ∀ (spot : Nat) (record : Proposal),
      (state.setLayer place change).proposals[spot]? = some record →
        ∃ before, state.proposals[spot]? = some before ∧ record.number = before.number ∧
          record.branch = before.branch := by
    intro spot record there
    rw [setLayer_getElem?] at there
    split at there
    · obtain ⟨before, isBefore, rfl⟩ := Option.map_eq_some_iff.mp there
      exact ⟨before, isBefore, keeps before⟩
    · exact ⟨record, there, rfl, rfl⟩
  intro layer other record isLayer isRecord apart
  obtain ⟨layer', wasLayer, number, branch⟩ := named index layer isLayer
  obtain ⟨record', wasRecord, number', branch'⟩ := named other record isRecord
  rw [number, branch, number', branch']
  exact sole layer' other record' wasLayer wasRecord apart

end Records

section Following

/-- What holds of a saved record and its branch at a point of an attempt: where
the branch stands, moves of others apart, and which commits are known. -/
structure Follows (theirs : Set Sha) (made : List Sha) (index : Nat) (state : OriginState)
    (layer : Proposal) (live : Option Sha) (world : Branches) : Prop where
  saved : world.saved = state
  record : state.proposals[index]? = some layer
  sole : Sole state.proposals index
  stands : world.heads layer.branch = live ∨
    ∃ commit ∈ theirs, world.heads layer.branch = some commit
  since : ∀ commit ∈ made, commit ∈ world.made
  known : ∀ commit ∈ world.made, world.parents commit ≠ none
  recorded : ∀ commit, layer.headCommit = some commit ∨ layer.pendingHeadCommit = some commit →
    commit ∈ world.made

/-- How far a push brings a record and its branch. -/
inductive Reached (made : List Sha) (layer : Proposal) (live : Option Sha) :
    Proposal → Option Sha → Prop where
  | untouched : Reached made layer live layer live
  | announced {commit : Sha} (new : commit ∉ made) :
      Reached made layer live (layer.announcing commit) live
  | moved {commit : Sha} (new : commit ∉ made) :
      Reached made layer live (layer.announcing commit) (some commit)
  | finished {commit : Sha} {after : Proposal} (new : commit ∉ made)
      (head : after.headCommit = some commit) (settled : after.pendingHeadCommit = none)
      (number : after.number = layer.number) (branch : after.branch = layer.branch) :
      Reached made layer live after (some commit)

/-- The calls that only look, or leave a new commit behind. -/
def Call.isLook (request : Call) : Prop :=
  request.isQuiet ∨ (∃ branch, request = .branchRef branch) ∨
    ∃ message tree parents, request = .createCommit message tree parents

variable {theirs : Set Sha} {made : List Sha} {index : Nat} {state : OriginState}
  {layer : Proposal} {live : Option Sha} {world last : Branches}

section

variable (follows : Follows theirs made index state layer live world)
include follows

theorem Follows.pushed (pushes : pushesOf theirs world last) :
    Follows theirs made index state layer live last := by
  obtain ⟨branch, commit, member, parents, rfl⟩ := pushes
  refine ⟨follows.saved, follows.record, follows.sole, ?_, follows.since, ?_, follows.recorded⟩
  · by_cases here : layer.branch = branch
    · right
      exact ⟨commit, member, by simp [Branches.push, here]⟩
    · simpa [Branches.push, here] using follows.stands
  · intro known isMade
    by_cases same : known = commit
    · simp [Branches.push, same]
    · simpa [Branches.push, same] using follows.known known isMade

theorem Follows.pushes (pushes : Relation.ReflTransGen (pushesOf theirs) world last) :
    Follows theirs made index state layer live last := by
  induction pushes with
  | refl => exact follows
  | tail _ step ih => exact ih.pushed step

theorem Follows.commit (sha : Sha) (parents : List Sha) :
    Follows theirs made index state layer live (world.commit sha parents) := by
  refine ⟨follows.saved, follows.record, follows.sole, follows.stands,
    fun old isMade => List.mem_cons_of_mem _ (follows.since old isMade), ?_, ?_⟩
  · intro known isMade
    by_cases same : known = sha
    · simp [Branches.commit, same]
    · have old := (List.mem_cons.mp isMade).resolve_left same
      simpa [Branches.commit, same] using follows.known known old
  · intro commit isRecorded
    exact List.mem_cons_of_mem _ (follows.recorded commit isRecorded)

end

variable {request : Call}

theorem Follows.does {result : request.Result} (look : request.isLook)
    (follows : Follows theirs made index state layer live world)
    (does : request.Does world result last) : Follows theirs made index state layer live last := by
  obtain quiet | ⟨branch, rfl⟩ | ⟨message, tree, parents, rfl⟩ := look
  · rw [quiet.does does]
    exact follows
  · obtain ⟨_, rfl⟩ := does
    exact ⟨follows.saved, follows.record, follows.sole, follows.stands, follows.since,
      follows.known, follows.recorded⟩
  · obtain ⟨_, rfl⟩ := does
    exact follows.commit _ _

theorem Follows.looked {answer : request.Answer} (look : request.isLook)
    (follows : Follows theirs made index state layer live world)
    (answered : amid (pushesOf theirs) Hosts world request answer last) :
    Follows theirs made index state layer live last := by
  obtain ⟨middle, pushes, hosts⟩ := answered
  have follows := follows.pushes pushes
  cases answer with
  | ok result => exact follows.does look hosts
  | error error =>
      obtain rfl | ⟨result, does⟩ := hosts
      · exact follows
      · exact follows.does look does

/-- A saved change of a record, the one that is followed or another one. -/
theorem Follows.saves {place : Nat} {change : Proposal → Proposal}
    (follows : Follows theirs made index state layer live world) (keeps : KeepsName change)
    (recorded : place = index → ∀ commit, (change layer).headCommit = some commit ∨
      (change layer).pendingHeadCommit = some commit → commit ∈ world.made) :
    Follows theirs made index (state.setLayer place change)
      (if place = index then change layer else layer) live
      { world with saved := state.setLayer place change } := by
  refine ⟨rfl, ?_, follows.sole.setLayer keeps, ?_, follows.since, follows.known, ?_⟩
  · rw [setLayer_getElem?, follows.record]
    split <;> rfl
  · split
    · rw [(keeps layer).2]
      exact follows.stands
    · exact follows.stands
  · split
    · rename_i mine
      exact recorded mine
    · exact follows.recorded

theorem Follows.moves {branch : String} {commit : Sha} {force : Bool}
    (follows : Follows theirs made index state layer live world) :
    Follows theirs made index state layer
      (if branch = layer.branch then some commit else live) (world.move branch commit force) := by
  refine ⟨follows.saved, follows.record, follows.sole, ?_, follows.since, follows.known,
    follows.recorded⟩
  split
  · rename_i same
    left
    simp [Branches.move, same]
  · rename_i apart
    simpa [Branches.move, Ne.symm apart] using follows.stands

end Following

section Rules

variable {theirs : Set Sha} {made : List Sha} {index : Nat} {state : OriginState}
  {layer after : Proposal} {live now : Option Sha} {world : Branches}

/-- What an attempt leaves, wherever it ends. -/
def Leaves (theirs : Set Sha) (made : List Sha) (index : Nat) (layer : Proposal)
    (live : Option Sha) (last : Branches) : Prop :=
  ∃ state after now, Reached made layer live after now ∧
    Follows theirs made index state after now last

variable {Value Other : Type} {post : Ending RemoteError Other → Branches → Prop}

/-- The rule for a part that only looks. -/
theorem ensures_looks {program : Operation Value} {next : Value → Operation Other}
    (unfinished : Unfinished (Leaves theirs made index layer live) post)
    (calls : Calls Call.isLook program) (reached : Reached made layer live after now)
    (follows : Follows theirs made index state after now world)
    (goes : ∀ value last, Follows theirs made index state after now last →
      Ensures (amid (pushesOf theirs) Hosts) post (next value) last) :
    Ensures (amid (pushesOf theirs) Hosts) post (program >>= next) world := by
  have looks : Ensures (amid (pushesOf theirs) Hosts)
      (fun _ last => Follows theirs made index state after now last) program world :=
    Calls.keeps (fun _ _ _ _ look answered holds => holds.looked look answered) calls follows
  apply looks.bind goes
  · intro error last holds
    exact (unfinished last ⟨state, after, now, reached, holds⟩).2 error
  · intro last holds
    exact (unfinished last ⟨state, after, now, reached, holds⟩).1

/-- The rule for one call, from what it does when it is carried out. -/
theorem ensures_does {request : Call} {next : request.Result → Operation Other}
    (unfinished : Unfinished (Leaves theirs made index layer live) post)
    (reached : Reached made layer live after now)
    (follows : Follows theirs made index state after now world)
    (does : ∀ middle result last, Follows theirs made index state after now middle →
      middle.made = world.made → request.Does middle result last →
        Leaves theirs made index layer live last ∧
          Ensures (amid (pushesOf theirs) Hosts) post (next result) last) :
    Ensures (amid (pushesOf theirs) Hosts) post (perform request >>= next) world := by
  have same : ∀ {middle}, Relation.ReflTransGen (pushesOf theirs) world middle →
      middle.made = world.made := by
    intro middle pushes
    induction pushes with
    | refl => rfl
    | tail _ step ih =>
        obtain ⟨_, _, _, _, rfl⟩ := step
        exact ih
  apply ensures_perform (unfinished world ⟨state, after, now, reached, follows⟩).1
  · rintro error last ⟨middle, pushes, rfl | ⟨result, done⟩⟩
    · have ends := unfinished _ ⟨state, after, now, reached, follows.pushes pushes⟩
      exact ⟨ends.1, ends.2 error⟩
    · have ends := unfinished _ (does middle result last (follows.pushes pushes) (same pushes) done).1
      exact ⟨ends.1, ends.2 error⟩
  · rintro result last ⟨middle, pushes, done⟩
    exact (does middle result last (follows.pushes pushes) (same pushes) done).2

/-- The rule for a new commit. -/
theorem ensures_commit {message : String} {tree : Sha} {parents : List Sha}
    {next : Sha → Operation Other}
    (unfinished : Unfinished (Leaves theirs made index layer live) post)
    (reached : Reached made layer live after now)
    (follows : Follows theirs made index state after now world)
    (goes : ∀ commit last, commit ∉ made → commit ∈ last.made →
      Follows theirs made index state after now last →
        Ensures (amid (pushesOf theirs) Hosts) post (next commit) last) :
    Ensures (amid (pushesOf theirs) Hosts) post
      (perform (.createCommit message tree parents) >>= next) world := by
  apply ensures_does unfinished reached follows
  rintro middle commit last follows _ ⟨fresh, rfl⟩
  have new : commit ∉ made := fun isMade => follows.known commit (follows.since commit isMade) fresh
  exact ⟨⟨state, after, now, reached, follows.commit commit parents⟩,
    goes commit _ new List.mem_cons_self (follows.commit commit parents)⟩

variable {place : Nat} {change : Proposal → Proposal} {next : Unit → Operation Other} {commit : Sha}

/-- The rule for a saved change of a record. -/
theorem ensures_saves (unfinished : Unfinished (Leaves theirs made index layer live) post)
    (reached : Reached made layer live after now)
    (follows : Follows theirs made index state after now world) (keeps : KeepsName change)
    (recorded : place = index → ∀ commit, (change after).headCommit = some commit ∨
      (change after).pendingHeadCommit = some commit → commit ∈ world.made)
    (saved : Reached made layer live (if place = index then change after else after) now)
    (goes : ∀ last, Follows theirs made index (state.setLayer place change)
      (if place = index then change after else after) now last →
        Ensures (amid (pushesOf theirs) Hosts) post (next ()) last) :
    Ensures (amid (pushesOf theirs) Hosts) post
      (perform (.save (state.setLayer place change)) >>= next) world := by
  apply ensures_does unfinished reached follows
  rintro middle _ last follows same rfl
  have changed : Follows theirs made index (state.setLayer place change)
      (if place = index then change after else after) now
      { middle with saved := state.setLayer place change } :=
    follows.saves keeps (by rw [same]; exact recorded)
  exact ⟨⟨_, _, now, saved, changed⟩, goes _ changed⟩

section

variable {branch : String} {force : Bool}

/-- The rule for a moved branch. -/
theorem ensures_moves (unfinished : Unfinished (Leaves theirs made index layer live) post)
    (reached : Reached made layer live after now)
    (follows : Follows theirs made index state after now world)
    (moved : Reached made layer live after (if branch = after.branch then some commit else now))
    (goes : ∀ last, Follows theirs made index state after
      (if branch = after.branch then some commit else now) last →
        Ensures (amid (pushesOf theirs) Hosts) post (next ()) last) :
    Ensures (amid (pushesOf theirs) Hosts) post
      (perform (.updateBranch branch commit force) >>= next) world := by
  apply ensures_does unfinished reached follows
  rintro middle _ last follows _ ⟨_, rfl⟩
  exact ⟨⟨state, after, _, moved, follows.moves⟩, goes _ follows.moves⟩

/-- The rule for a push: the announcement is saved, then the branch moves. -/
theorem ensures_push {next : OriginState → Operation Other}
    (unfinished : Unfinished (Leaves theirs made index layer live) post)
    (reached : Reached made layer live after now)
    (untouched : place = index → after = layer ∧ now = live)
    (follows : Follows theirs made index state after now world)
    (mine : branch = after.branch ↔ place = index) (new : commit ∉ made)
    (isMade : commit ∈ world.made) (goes : ∀ last,
      Reached made layer live (if place = index then after.announcing commit else after)
        (if place = index then some commit else now) →
      Follows theirs made index (state.setLayer place fun record => record.announcing commit)
        (if place = index then after.announcing commit else after)
        (if place = index then some commit else now) last →
          Ensures (amid (pushesOf theirs) Hosts) post
            (next (state.setLayer place fun record => record.announcing commit)) last) :
    Ensures (amid (pushesOf theirs) Hosts) post
      (announce state place commit >>= fun state =>
        perform (.updateBranch branch commit force) >>= fun _ => next state) world := by
  have announced : Reached made layer live
      (if place = index then after.announcing commit else after) now := by
    split
    · rename_i isMine
      obtain ⟨rfl, rfl⟩ := untouched isMine
      exact .announced new
    · exact reached
  have moved : Reached made layer live
      (if place = index then after.announcing commit else after)
      (if place = index then some commit else now) := by
    split
    · rename_i isMine
      obtain ⟨rfl, rfl⟩ := untouched isMine
      exact .moved new
    · exact reached
  unfold announce
  rw [Program.bind_assoc]
  apply ensures_saves unfinished reached follows (keepsName_announcing commit) _ announced
  · intro last follows
    have sameBranch : (if place = index then after.announcing commit else after).branch =
        after.branch := by
      split <;> rfl
    have moves : (if branch = (if place = index then after.announcing commit else after).branch
        then some commit else now) = if place = index then some commit else now := by
      rw [sameBranch]
      simp only [mine]
    apply ensures_moves unfinished announced follows
    · rw [moves]
      exact moved
    · rw [moves]
      exact fun last follows => goes last moved follows
  · rintro _ other (head | pending)
    · exact follows.recorded other (.inl head)
    · cases pending
      exact isMade

end

/-- The rule for the save that finishes a push. -/
theorem ensures_finish (unfinished : Unfinished (Leaves theirs made index layer live) post)
    (reached : Reached made layer live after now)
    (untouched : place = index → after = layer ∧ now = live) (new : commit ∉ made)
    (keeps : KeepsName change) (finishes : Finishes commit change)
    (follows : Follows theirs made index state
      (if place = index then after.announcing commit else after)
      (if place = index then some commit else now) world)
    (goes : ∀ after' now' last, Reached made layer live after' now' →
      (place ≠ index → after' = after ∧ now' = now) →
      Follows theirs made index (state.setLayer place change) after' now' last →
        Ensures (amid (pushesOf theirs) Hosts) post (next ()) last) :
    Ensures (amid (pushesOf theirs) Hosts) post
      (perform (.save (state.setLayer place change)) >>= next) world := by
  by_cases mine : place = index
  · obtain ⟨rfl, rfl⟩ := untouched mine
    rw [if_pos mine, if_pos mine] at follows
    obtain ⟨head, settled⟩ := finishes (after.announcing commit)
    obtain ⟨number, branch⟩ := keeps (after.announcing commit)
    have finished : Reached made after now (change (after.announcing commit)) (some commit) :=
      .finished new head settled number branch
    apply ensures_saves unfinished (.moved new) follows keeps
    · rintro _ other (isHead | isPending)
      · rw [head] at isHead
        cases isHead
        exact follows.recorded commit (.inr rfl)
      · rw [settled] at isPending
        cases isPending
    · rw [if_pos mine]
      exact finished
    · rw [if_pos mine]
      intro last saved
      exact goes _ _ last finished (fun other => absurd mine other) saved
  · rw [if_neg mine, if_neg mine] at follows
    apply ensures_saves unfinished reached follows keeps
    · exact fun isMine => absurd isMine mine
    · rw [if_neg mine]
      exact reached
    · rw [if_neg mine]
      intro last saved
      exact goes _ _ last reached (fun _ => ⟨rfl, rfl⟩) saved

end Rules

section Attempts

variable {theirs : Set Sha} {made : List Sha} {index : Nat} {state : OriginState}
  {layer after : Proposal} {live now : Option Sha} {world : Branches} {place : Nat}
  {record : Proposal} {sub : Option Text} {parent : Sha}

theorem Follows.mine (follows : Follows theirs made index state layer live world)
    (there : state.proposals[place]? = some record) :
    record.branch = layer.branch ↔ place = index := by
  constructor
  · intro same
    by_contra apart
    exact (follows.sole layer place record follows.record there apart).2 same
  · rintro rfl
    rw [follows.record] at there
    cases there
    rfl

/-- What one turn of a cascade may leave. -/
def TurnLeaves (theirs : Set Sha) (made : List Sha) (index : Nat) (layer : Proposal)
    (live : Option Sha) (place : Nat) (after : Proposal) (now : Option Sha) :
    Ending RemoteError (OriginState × Sha) → Branches → Prop
  | .returned carried, last => ∃ after' now', Reached made layer live after' now' ∧
      (place ≠ index → after' = after ∧ now' = now) ∧
      Follows theirs made index carried.1 after' now' last
  | _, last => Leaves theirs made index layer live last

theorem unfinished_turn :
    Unfinished (Leaves theirs made index layer live)
      (TurnLeaves theirs made index layer live place after now) :=
  fun _ leaves => ⟨leaves, fun _ => leaves⟩

/-- A turn of a cascade pushes the layer at its place and no other. -/
theorem ensures_replayLayer (reached : Reached made layer live after now)
    (untouched : place = index → after = layer ∧ now = live)
    (follows : Follows theirs made index state after now world) :
    Ensures (amid (pushesOf theirs) Hosts)
      (TurnLeaves theirs made index layer live place after now)
      (replayLayer sub (state, parent) place) world := by
  have stays : Leaves theirs made index layer live world ∧
      TurnLeaves theirs made index layer live place after now (.returned (state, parent)) world :=
    ⟨⟨state, after, now, reached, follows⟩, after, now, reached, fun _ => ⟨rfl, rfl⟩, follows⟩
  unfold replayLayer
  dsimp only
  split
  · exact stays
  · rename_i record there
    split
    · exact stays
    · apply ensures_looks unfinished_turn (calls_orStop _) reached follows
      intro writes last follows
      apply ensures_looks unfinished_turn (calls_perform (.inl (by trivial))) reached follows
      intro tree last follows
      apply ensures_commit unfinished_turn reached follows
      intro commit last new isMade follows
      apply ensures_push unfinished_turn reached untouched follows (follows.mine there) new isMade
      intro last _ pushed
      apply ensures_finish unfinished_turn reached untouched new (keepsName_pushed commit parent)
        (finishes_pushed commit parent) pushed
      intro after' now' last reached' apart saved
      exact ⟨⟨_, after', now', reached', saved⟩, after', now', reached', apart, saved⟩

theorem ensures_replays {count place : Nat} (reached : Reached made layer live after now)
    (untouched : place ≤ index → after = layer ∧ now = live)
    (follows : Follows theirs made index state after now world) :
    Ensures (amid (pushesOf theirs) Hosts) (fun _ last => Leaves theirs made index layer live last)
      (Program.forEach (replayLayer sub) (state, parent) (List.range' place count)) world := by
  induction count generalizing place state parent after now world with
  | zero => exact ⟨⟨state, after, now, reached, follows⟩, ⟨state, after, now, reached, follows⟩⟩
  | succ count ih =>
      rw [List.range'_succ]
      apply (ensures_replayLayer reached (fun here => untouched (Nat.le_of_eq here)) follows).bind
      · rintro carried last ⟨after', now', reached', apart, follows'⟩
        apply ih reached' _ follows'
        intro higher
        obtain ⟨rfl, rfl⟩ := untouched (Nat.le_of_succ_le higher)
        exact apart (Nat.ne_of_lt higher)
      · exact fun _ _ leaves => leaves
      · exact fun _ leaves => leaves

theorem ensures_cascadeReplays (reached : Reached made layer live after now)
    (untouched : place ≤ index → after = layer ∧ now = live)
    (follows : Follows theirs made index state after now world) :
    Ensures (amid (pushesOf theirs) Hosts) (fun _ last => Leaves theirs made index layer live last)
      (cascadeReplays sub state place parent) world :=
  (ensures_replays reached untouched follows).bind (fun _ _ leaves => ⟨leaves, leaves⟩)
    (fun _ _ leaves => leaves) fun _ leaves => leaves

theorem unfinished_leaves {Value : Type} :
    Unfinished (Leaves theirs made index layer live)
      (fun (_ : Ending RemoteError Value) last => Leaves theirs made index layer live last) :=
  fun _ leaves => ⟨leaves, fun _ => leaves⟩

/-- The record a number names is the followed one exactly when the numbers are
the same. -/
theorem Follows.findIdx_eq (follows : Follows theirs made index state layer live world)
    (there : state.proposals[place]? = some record) :
    record.branch = layer.branch ↔
      (state.proposals.findIdx fun other => other.number = record.number) = index := by
  have found : (state.proposals.findIdx fun other => other.number = record.number) <
      state.proposals.length := by
    apply List.findIdx_lt_length_of_exists
    exact ⟨record, List.mem_of_getElem? there, by simp⟩
  have named : state.proposals[state.proposals.findIdx fun other =>
      other.number = record.number].number = record.number := by
    simpa using @List.findIdx_getElem _ _ state.proposals found
  rw [follows.mine there]
  constructor
  · rintro rfl
    by_contra apart
    exact (follows.sole record _ _ there (List.getElem?_eq_getElem found) apart).1 named
  · intro here
    by_contra apart
    have same : layer.number = record.number := by
      have isLayer := follows.record
      rw [← here, List.getElem?_eq_getElem found] at isLayer
      rw [← Option.some.inj isLayer]
      exact named
    exact (follows.sole layer place record follows.record there apart).1 same.symm

variable {share : Share}

theorem ensures_updateOpenProposal {liveHead : Sha} {local_ : LocalChanges}
    (there : state.proposals[place]? = some record)
    (follows : Follows theirs made index state layer live world) :
    Ensures (amid (pushesOf theirs) Hosts) (fun _ last => Leaves theirs made index layer live last)
      (updateOpenProposal share state record liveHead local_) world := by
  unfold updateOpenProposal
  apply ensures_looks unfinished_leaves _ .untouched follows
  · intro collected last follows
    apply ensures_looks unfinished_leaves (calls_perform (.inl (by trivial))) .untouched follows
    intro tree last follows
    apply ensures_commit unfinished_leaves .untouched follows
    intro commit last new isMade follows
    apply ensures_push unfinished_leaves .untouched (fun _ => ⟨rfl, rfl⟩) follows
      (follows.findIdx_eq there) new isMade
    intro last moved pushed
    apply ensures_looks unfinished_leaves (calls_perform (.inl (by trivial))) moved pushed
    intro _ last pushed
    apply ensures_finish unfinished_leaves .untouched (fun _ => ⟨rfl, rfl⟩) new
      (keepsName_amended share collected commit state.baseCommit)
      (finishes_amended share collected commit state.baseCommit) pushed
    intro after now last reached _ saved
    exact ⟨⟨_, after, now, reached, saved⟩, ⟨_, after, now, reached, saved⟩⟩
  · exact (calls_collectChanges share local_).mono fun _ => .inl

theorem calls_firstDiverged (layers : List Proposal) :
    Calls Call.isLook (firstDiverged layers) := by
  induction layers with
  | nil => trivial
  | cons layer layers ih =>
      apply (calls_perform (.inr (.inl ⟨_, rfl⟩))).bind
      intro found
      split
      · split
        · exact ih
        · trivial
      · exact ih

theorem calls_ensureCascadeReady (state : OriginState) (place : Nat) :
    Calls Call.isLook (ensureCascadeReady state place) :=
  (calls_orStop _).bind fun _ => calls_firstDiverged _

/-- An amend pushes its own layer, then the ones above it. -/
theorem ensures_amendLayer (there : state.proposals[place]? = some record)
    (follows : Follows theirs made index state layer live world) :
    Ensures (amid (pushesOf theirs) Hosts) (fun _ last => Leaves theirs made index layer live last)
      (amendLayer share state place record) world := by
  have stays : ∀ last, Follows theirs made index state layer live last →
      Leaves theirs made index layer live last ∧ Leaves theirs made index layer live last :=
    fun last follows => ⟨⟨state, layer, live, .untouched, follows⟩,
      ⟨state, layer, live, .untouched, follows⟩⟩
  unfold amendLayer
  apply ensures_looks unfinished_leaves (calls_ensureCascadeReady state _) .untouched follows
  intro above last follows
  split
  · exact stays last follows
  · apply ensures_looks unfinished_leaves (calls_perform (.inr (.inl ⟨_, rfl⟩))) .untouched follows
    intro found last follows
    split
    · exact stays last follows
    · split
      · exact stays last follows
      · apply ensures_looks unfinished_leaves (calls_orStop _) .untouched follows
        intro fresh last follows
        split
        · exact stays last follows
        · apply ensures_looks unfinished_leaves _ .untouched follows
          · intro collected last follows
            apply ensures_looks unfinished_leaves (calls_perform (.inl (by trivial))) .untouched
              follows
            intro tree last follows
            apply ensures_commit unfinished_leaves .untouched follows
            intro commit last new isMade follows
            apply ensures_push unfinished_leaves .untouched (fun _ => ⟨rfl, rfl⟩) follows
              (follows.mine there) new isMade
            intro last moved pushed
            apply ensures_looks unfinished_leaves (calls_perform (.inl (by trivial))) moved pushed
            intro _ last pushed
            apply ensures_finish unfinished_leaves .untouched (fun _ => ⟨rfl, rfl⟩) new
              (keepsName_amended share collected commit (state.headBelow place))
              (finishes_amended share collected commit (state.headBelow place)) pushed
            intro after now last reached apart saved
            apply (ensures_cascadeReplays reached _ saved).bind
            · exact fun _ _ leaves => ⟨leaves, leaves⟩
            · exact fun _ _ leaves => leaves
            · exact fun _ leaves => leaves
            · exact fun higher => apart (Nat.ne_of_lt higher)
          · exact (calls_collectAmendChanges share fresh record _ _).mono fun _ => .inl

end Attempts

section Refusals

variable {made : List Sha} {index place : Nat} {state : OriginState} {layer record : Proposal}
  {live : Option Sha} {world : Branches}

/-- What a share answers names another layer, if it refuses over one. -/
def NamesOther (layer : Proposal) (outcome : ProposeOutcome) : Prop :=
  ∀ number url branch, outcome = .proposalDiverged number url branch → number ≠ layer.number

theorem namesOther_updated (report : ProposeReport) : NamesOther layer (.updated report) := by
  rintro number url branch ⟨⟩

theorem Follows.other (follows : Follows ∅ made index state layer live world)
    (ours : live.any (headIsOurs layer)) (there : state.proposals[place]? = some record)
    {head : Sha} (stands : world.heads record.branch = some head)
    (notOurs : headIsOurs record head = false) : record.number ≠ layer.number := by
  by_cases mine : place = index
  · subst mine
    rw [follows.record] at there
    cases there
    obtain same | ⟨_, none_, _⟩ := follows.stands
    · rw [← same, stands, Option.any_some, notOurs] at ours
      cases ours
    · cases none_
  · exact (follows.sole layer place record follows.record there mine).1

theorem ensures_firstDiverged (ours : live.any (headIsOurs layer)) {layers : List Proposal}
    (members : ∀ record ∈ layers, record ∈ state.proposals)
    (follows : Follows ∅ made index state layer live world) :
    Ensures (amid (pushesOf ∅) Hosts) (OnReturn fun found last =>
        Follows ∅ made index state layer live last ∧
          ∀ above, found = some above → above.number ≠ layer.number)
      (firstDiverged layers) world := by
  induction layers generalizing world with
  | nil => exact ⟨trivial, follows, fun _ => (nomatch ·)⟩
  | cons record layers ih =>
      have others : ∀ other ∈ layers, other ∈ state.proposals := fun other member =>
        members other (List.mem_cons_of_mem record member)
      apply ensures_perform trivial (fun _ _ _ => ⟨trivial, trivial⟩)
      rintro found _ ⟨middle, pushes, isHead, rfl⟩
      have before := follows.pushes pushes
      have after := before.does (.inr (.inl ⟨_, rfl⟩)) ⟨isHead, rfl⟩
      cases found with
      | none => exact ih others after
      | some head =>
          dsimp only
          split
          · exact ih others after
          · rename_i notOurs
            refine ⟨trivial, after, ?_⟩
            rintro above ⟨⟩
            obtain ⟨place, there⟩ := List.getElem?_of_mem (members record List.mem_cons_self)
            exact before.other ours there isHead.symm (by simpa using notOurs)

/-- An amend refuses over no layer that stands where this machine left it. -/
theorem ensures_amendLayer_namesOther {share : Share} (ours : live.any (headIsOurs layer))
    (there : state.proposals[place]? = some record)
    (follows : Follows ∅ made index state layer live world) :
    Ensures (amid (pushesOf ∅) Hosts) (OnReturn fun outcome _ => NamesOther layer outcome)
      (amendLayer share state place record) world := by
  have members : ∀ above ∈ state.openFrom (place + 1), above ∈ state.proposals :=
    fun above member => List.mem_of_mem_drop (List.mem_of_mem_filter member)
  unfold amendLayer ensureCascadeReady
  cases state.ensureReplayable (place + 1) with
  | error error => exact ⟨trivial, trivial⟩
  | ok _ =>
      apply (ensures_firstDiverged ours members follows).bind _ (fun _ _ _ => trivial)
        (fun _ _ => trivial)
      rintro found last ⟨follows, others⟩
      cases found with
      | some above =>
          refine ⟨trivial, ?_⟩
          rintro number url branch ⟨⟩
          exact others above rfl
      | none =>
          apply ensures_perform trivial (fun _ _ _ => ⟨trivial, trivial⟩)
          rintro found last ⟨middle, pushes, isHead, rfl⟩
          cases found with
          | none => exact ⟨trivial, trivial⟩
          | some head =>
              dsimp only
              split
              · rename_i notOurs
                refine ⟨trivial, ?_⟩
                rintro number url branch ⟨⟩
                exact (follows.pushes pushes).other ours there isHead.symm (by simpa using notOurs)
              · apply Returns.ensures
                apply (returns_anything _).bind
                intro fresh _
                split
                · rintro number url branch ⟨⟩
                · repeat'
                    apply (returns_anything _).bind
                    intro _ _
                  exact namesOther_updated _

end Refusals

section Histories

/-- The pushes of a share over the saved records, ended anywhere. -/
inductive Attempt (theirs : Set Sha) (world last : Branches) : Prop where
  | update {share : Share} {layer : Proposal} {place : Nat} {liveHead : Sha}
      {local_ : LocalChanges} {ending : Ending RemoteError ProposeOutcome}
      (there : world.saved.proposals[place]? = some layer)
      (run : Runs (amid (pushesOf theirs) Hosts) world
        (updateOpenProposal share world.saved layer liveHead local_) ending last)
  | amend {share : Share} {layer : Proposal} {place : Nat}
      {ending : Ending RemoteError ProposeOutcome}
      (there : world.saved.proposals[place]? = some layer)
      (run : Runs (amid (pushesOf theirs) Hosts) world
        (amendLayer share world.saved place layer) ending last)
  | replay {sub : Option Text} {place : Nat} {parent : Sha}
      {ending : Ending RemoteError OriginState}
      (run : Runs (amid (pushesOf theirs) Hosts) world
        (cascadeReplays sub world.saved place parent) ending last)

/-- The worlds a record and its branch come to: from its creation by attempts of
this machine that all meet a condition, pushes of others, and saves that leave
the records as they are. -/
inductive Shared (theirs : Set Sha) (meets : Branches → Branches → Prop) (index : Nat) :
    Branches → Prop where
  | opened {world : Branches} {layer : Proposal} {head : Sha}
      (there : world.saved.proposals[index]? = some layer)
      (sole : Sole world.saved.proposals index) (recorded : layer.headCommit = some head)
      (settled : layer.pendingHeadCommit = none) (stands : world.heads layer.branch = some head)
      (isMade : head ∈ world.made) (known : ∀ commit ∈ world.made, world.parents commit ≠ none) :
      Shared theirs meets index world
  | attempted {world last : Branches} (before : Shared theirs meets index world)
      (attempt : Attempt theirs world last) (meeting : meets world last) :
      Shared theirs meets index last
  | pushed {world last : Branches} (before : Shared theirs meets index world)
      (pushes : pushesOf theirs world last) : Shared theirs meets index last
  | saved {world : Branches} {state : OriginState} (before : Shared theirs meets index world)
      (same : state.proposals = world.saved.proposals) :
      Shared theirs meets index { world with saved := state }

/-- The branch stands at a head that is ours. -/
def StandsOurs (index : Nat) (world : Branches) : Prop :=
  ∃ layer head, world.saved.proposals[index]? = some layer ∧
    world.heads layer.branch = some head ∧ headIsOurs layer head

/-- An attempt that found a half-finished push, announced its own commit, and
left the branch where it stood. -/
def CutShort (index : Nat) (world last : Branches) : Prop :=
  ∃ layer after, world.saved.proposals[index]? = some layer ∧
    last.saved.proposals[index]? = some after ∧
    layer.headCommit ≠ world.heads layer.branch ∧
    layer.pendingHeadCommit = world.heads layer.branch ∧
    after.pendingHeadCommit ≠ layer.pendingHeadCommit ∧
    last.heads layer.branch = world.heads layer.branch

variable {theirs : Set Sha} {made : List Sha} {index : Nat} {state : OriginState}
  {layer after : Proposal} {live now : Option Sha} {world last : Branches}
  {meets : Branches → Branches → Prop}

theorem Follows.anchor (follows : Follows theirs made index state layer live world) :
    Follows theirs world.made index world.saved layer (world.heads layer.branch) world := by
  refine ⟨rfl, ?_, ?_, .inl rfl, fun _ isMade => isMade, follows.known, follows.recorded⟩
  · rw [follows.saved]
    exact follows.record
  · rw [follows.saved]
    exact follows.sole

theorem Attempt.leaves (attempt : Attempt theirs world last)
    (follows : Follows theirs made index world.saved layer live world) :
    Leaves theirs made index layer live last := by
  cases attempt with
  | update there run => exact (ensures_updateOpenProposal there follows).of_run run
  | amend there run => exact (ensures_amendLayer there follows).of_run run
  | replay run =>
      exact (ensures_cascadeReplays .untouched (fun _ => ⟨rfl, rfl⟩) follows).of_run run

theorem Reached.headCommit_isSome (reached : Reached made layer live after now)
    (recorded : layer.headCommit.isSome) : after.headCommit.isSome := by
  cases reached with
  | untouched => exact recorded
  | announced _ => exact recorded
  | moved _ => exact recorded
  | finished _ head _ _ _ =>
      rw [head]
      rfl

/-- The record keeps a head, and the commits it names are ours. -/
theorem Shared.follows (shared : Shared theirs meets index world) :
    ∃ layer, Follows theirs world.made index world.saved layer (world.heads layer.branch) world ∧
      layer.headCommit.isSome := by
  induction shared with
  | @opened world layer head there sole recorded settled stands isMade known =>
      refine ⟨layer, ⟨rfl, there, sole, .inl rfl, fun _ isMade => isMade, known, ?_⟩, ?_⟩
      · intro commit isRecorded
        rw [recorded, settled] at isRecorded
        obtain same | none_ := isRecorded
        · cases same
          exact isMade
        · cases none_
      · rw [recorded]
        rfl
  | attempted _ attempt _ ih =>
      obtain ⟨layer, follows, recorded⟩ := ih
      obtain ⟨state, after, now, reached, left⟩ := attempt.leaves follows
      exact ⟨after, left.anchor, reached.headCommit_isSome recorded⟩
  | pushed _ pushes ih =>
      obtain ⟨layer, follows, recorded⟩ := ih
      exact ⟨layer, (follows.pushed pushes).anchor, recorded⟩
  | @saved world state _ same ih =>
      obtain ⟨layer, follows, recorded⟩ := ih
      refine ⟨layer, ⟨rfl, ?_, ?_, .inl rfl, fun _ isMade => isMade, follows.known,
        follows.recorded⟩, recorded⟩
      · rw [same]
        exact follows.record
      · rw [same]
        exact follows.sole

theorem headIsOurs_eq {head recorded : Sha} (isRecorded : layer.headCommit = some recorded) :
    headIsOurs layer head ↔
      layer.headCommit = some head ∨ layer.pendingHeadCommit = some head := by
  rw [headIsOurs, isRecorded]
  simp

/-- A push leaves the branch at a head that is ours unless it stopped between the
announcement and the move while another push was pending. -/
theorem Reached.ours_iff {head : Sha} (reached : Reached made layer (some head) after now)
    (recorded : layer.headCommit.isSome) (isMade : head ∈ made) (ours : headIsOurs layer head) :
    now.any (headIsOurs after) ↔ ¬ (layer.headCommit ≠ some head ∧
      layer.pendingHeadCommit = some head ∧
      after.pendingHeadCommit ≠ layer.pendingHeadCommit ∧ now = some head) := by
  obtain ⟨recordedHead, isRecorded⟩ := Option.isSome_iff_exists.mp recorded
  have standing := (headIsOurs_eq isRecorded).mp ours
  cases reached with
  | untouched =>
      constructor
      · rintro _ ⟨_, _, apart, _⟩
        exact apart rfl
      · intro _
        exact ours
  | @announced commit new =>
      have other : some commit ≠ some head := by
        rintro ⟨⟩
        exact new isMade
      have announcing : (layer.announcing commit).headCommit = some recordedHead := isRecorded
      rw [Option.any_some, headIsOurs_eq announcing]
      constructor
      · rintro (same | same) ⟨apart, _⟩
        · exact apart same
        · exact other same
      · intro whole
        by_contra notOurs
        have apart : layer.headCommit ≠ some head := fun same => notOurs (.inl same)
        have pending := standing.resolve_left apart
        exact whole ⟨apart, pending, by rw [pending]; exact other, rfl⟩
  | @moved commit new =>
      constructor
      · rintro _ ⟨_, _, _, same⟩
        cases same
        exact new isMade
      · intro _
        have announcing : (layer.announcing commit).headCommit = some recordedHead := isRecorded
        exact (headIsOurs_eq announcing).mpr (.inr rfl)
  | finished new isHead settled number branch =>
      constructor
      · rintro _ ⟨_, _, _, same⟩
        cases same
        exact new isMade
      · intro _
        exact (headIsOurs_eq isHead).mpr (.inl isHead)

/-- Where an attempt leaves the branch and the record is ours unless the attempt
was cut short. -/
theorem Attempt.standsOurs_iff (attempt : Attempt ∅ world last)
    (follows : Follows ∅ world.made index world.saved layer (world.heads layer.branch) world)
    (recorded : layer.headCommit.isSome) (ours : StandsOurs index world) :
    StandsOurs index last ↔ ¬ CutShort index world last := by
  obtain ⟨_, head, there, stands, isOurs⟩ := ours
  rw [follows.record] at there
  cases there
  have isMade : head ∈ world.made := by
    obtain ⟨recordedHead, isRecorded⟩ := Option.isSome_iff_exists.mp recorded
    exact follows.recorded head ((headIsOurs_eq isRecorded).mp isOurs)
  obtain ⟨state, after, now, reached, left⟩ := attempt.leaves follows
  rw [stands] at reached
  have record : last.saved.proposals[index]? = some after := by
    rw [left.saved]
    exact left.record
  have isNow : last.heads after.branch = now := by
    obtain isNow | ⟨_, none_, _⟩ := left.stands
    · exact isNow
    · cases none_
  have sameBranch : after.branch = layer.branch := by
    cases reached with
    | untouched | announced _ | moved _ => rfl
    | finished _ _ _ _ branch => exact branch
  have isOursAfter : StandsOurs index last ↔ now.any (headIsOurs after) := by
    constructor
    · rintro ⟨_, head, isAfter, stands, ours⟩
      rw [record] at isAfter
      cases isAfter
      rw [← isNow, stands]
      exact ours
    · intro ours
      cases now with
      | none => cases ours
      | some commit => exact ⟨after, commit, record, isNow, ours⟩
  rw [isOursAfter, reached.ours_iff recorded isMade isOurs, not_iff_not]
  constructor
  · rintro ⟨apart, pending, announced, same⟩
    rw [← stands] at apart pending same
    rw [← isNow, sameBranch] at same
    exact ⟨layer, after, follows.record, record, apart, pending, announced, same⟩
  · rintro ⟨layer', after', isLayer, isAfter, rest⟩
    rw [follows.record] at isLayer
    rw [record] at isAfter
    cases isLayer
    cases isAfter
    rw [stands, ← sameBranch, isNow] at rest
    exact rest

/-- Where no attempt was cut short and nobody else moved the branch, it stands
at a head that is ours. -/
theorem Shared.standsOurs
    (shared : Shared ∅ (fun world last => ¬ CutShort index world last) index world) :
    StandsOurs index world := by
  induction shared with
  | opened there _ recorded _ stands _ _ =>
      exact ⟨_, _, there, stands, (headIsOurs_eq recorded).mpr (.inl recorded)⟩
  | attempted before attempt whole ih =>
      obtain ⟨layer, follows, recorded⟩ := before.follows
      exact (attempt.standsOurs_iff follows recorded ih).mpr whole
  | pushed _ pushes _ =>
      obtain ⟨_, _, none_, _⟩ := pushes
      cases none_
  | saved _ same ih =>
      obtain ⟨layer, head, there, rest⟩ := ih
      exact ⟨layer, head, by rw [same]; exact there, rest⟩

/-- An interrupted share is known again before every attempt and refuses no
amend, exactly as long as no attempt that took over a half-finished push was cut
off between its announcement and its move; a branch somebody else moved is never
taken for ours. -/
theorem interrupted_share_is_ours (index : Nat) :
    (∀ world, Shared ∅ (fun world last => ¬ CutShort index world last) index world →
      StandsOurs index world ∧
      (∀ share place layer record outcome last, world.saved.proposals[index]? = some layer →
        world.saved.proposals[place]? = some record →
        Runs (amid (pushesOf ∅) Hosts) world (amendLayer share world.saved place record)
          (.returned outcome) last → NamesOther layer outcome) ∧
      ∀ last, Attempt ∅ world last → (StandsOurs index last ↔ ¬ CutShort index world last)) ∧
    ∀ theirs world layer commit, Shared theirs (fun _ _ => True) index world →
      world.saved.proposals[index]? = some layer → world.heads layer.branch = some commit →
      commit ∉ world.made → headIsOurs layer commit = false := by
  constructor
  · intro world shared
    have ours := shared.standsOurs
    obtain ⟨layer, follows, recorded⟩ := shared.follows
    refine ⟨ours, ?_, fun last attempt => attempt.standsOurs_iff follows recorded ours⟩
    intro share place layer' record outcome last isLayer there run
    rw [follows.record] at isLayer
    cases isLayer
    obtain ⟨_, head, isLayer, stands, isOurs⟩ := ours
    rw [follows.record] at isLayer
    cases isLayer
    exact (ensures_amendLayer_namesOther (by rw [stands]; exact isOurs) there follows).of_run run
  · intro theirs world layer commit shared there stands foreign
    obtain ⟨layer', follows, recorded⟩ := shared.follows
    rw [follows.record] at there
    cases there
    obtain ⟨head, isRecorded⟩ := Option.isSome_iff_exists.mp recorded
    rw [Bool.eq_false_iff]
    intro ours
    exact foreign (follows.recorded commit ((headIsOurs_eq isRecorded).mp ours))

end Histories

section Samples

/-- A share of one deleted file. -/
def removal : Share where
  spec := ⟨"team/notes", none, "main"⟩
  domainName := "notes"
  detector := ⟨fun _ => "digest", id, ⟨.onlyLocal, .off⟩, none, none⟩
  tree := ∅
  copies := ∅
  title := some "Drop the draft"
  described := true
  body _ := ""
  proposal := none
  stacksAllowed := true
  files := none
  authorLogin := none
  branchName := "share-2"

def removed : LocalChanges := ⟨[.deleted "draft.md".toList], [], []⟩

/-- The one open layer of a domain. -/
def openLayer : Proposal where
  number := 1
  url := ""
  branch := "share-1"
  title := "Notes"
  status := .opened
  files := []
  headCommit := some "head"
  pendingHeadCommit := none
  baseCommit := some "trunk"
  authorLogin := none

/-- The layer as its share left it. -/
def oneLayer : Branches where
  saved := { OriginState.new "main" with baseCommit := "trunk", proposals := [openLayer] }
  heads branch := if branch = "share-1" then some "head" else none
  parents commit := if commit = "head" then some ["trunk"] else none
  made := ["head"]
  log := []

/-- An update of the layer over a forge where some calls fail. -/
def updated (broken : Call → Bool) (world : Branches) (layer : Proposal) (live : Sha) : Branches :=
  ((updateOpenProposal removal world.saved layer live removed).eval (brokenForge broken) world).2

theorem attempt_updated {theirs : Set Sha} {broken : Call → Bool} {world : Branches}
    {layer : Proposal} {live : Sha} (there : world.saved.proposals[0]? = some layer) :
    Attempt theirs world (updated broken world layer live) :=
  .update there (runs_eval
    (fun world request => ⟨world, .refl, brokenForge_hosts broken world request⟩) _ _)

/-- An update that stopped after the branch moved. -/
def halfPushed : Branches :=
  updated (fun request => request matches .updateProposal _ _ _ _) oneLayer openLayer "head"

/-- The next update, that stopped before. -/
def cutShort : Branches :=
  updated (fun request => request matches .updateBranch _ _ _) halfPushed
    (openLayer.announcing "commit-1") "commit-1"

theorem oneLayer_shared (theirs : Set Sha) (meets : Branches → Branches → Prop) :
    Shared theirs meets 0 oneLayer := by
  refine @Shared.opened theirs meets 0 oneLayer openLayer "head" rfl ?_ rfl rfl rfl
    List.mem_cons_self ?_
  · intro layer other record _ there apart
    obtain ⟨other, rfl⟩ := Nat.exists_eq_succ_of_ne_zero apart
    cases there
  · intro commit isMade
    rw [List.mem_singleton.mp isMade]
    decide

theorem halfPushed_record : halfPushed.saved.proposals = [openLayer.announcing "commit-1"] := by
  decide

/-- A half-finished update is known again; a reviewer's commit is not. -/
theorem interrupted_share_is_ours_half :
    StandsOurs 0 halfPushed ∧
      headIsOurs openLayer "theirs" = false := by
  have whole : ¬ CutShort 0 oneLayer halfPushed := by
    rintro ⟨layer, _, there, _, apart, _⟩
    cases there
    exact apart rfl
  refine ⟨(((interrupted_share_is_ours 0).1 halfPushed
    (.attempted (oneLayer_shared _ _) (attempt_updated rfl) whole)).1), ?_⟩
  exact (interrupted_share_is_ours 0).2 {"theirs"} (oneLayer.push "share-1" "theirs" ["head"])
    openLayer "theirs" (.pushed (oneLayer_shared _ _)
      ⟨"share-1", "theirs", rfl, ["head"], rfl⟩) rfl rfl (by decide)

/-- An update that takes over a half-finished push and is cut off between its
announcement and its move leaves the branch at a head nobody remembers. -/
theorem interrupted_share_is_lost :
    ¬ ∀ world, Shared ∅ (fun _ _ => True) 0 world → StandsOurs 0 world := by
  intro holds
  have there : halfPushed.saved.proposals[0]? = some (openLayer.announcing "commit-1") := by
    rw [halfPushed_record]
    rfl
  have shared : Shared ∅ (fun _ _ => True) 0 cutShort :=
    .attempted (.attempted (oneLayer_shared _ _) (attempt_updated rfl) trivial)
      (attempt_updated there) trivial
  obtain ⟨layer, head, isLayer, stands, ours⟩ := holds cutShort shared
  have records : cutShort.saved.proposals = [openLayer.announcing "commit-2"] := by decide
  rw [records] at isLayer
  cases isLayer
  have same : head = "commit-1" := by
    have live : cutShort.heads "share-1" = some "commit-1" := by decide
    exact Option.some.inj (stands.symm.trans live)
  rw [same] at ours
  exact absurd ours (by decide)

end Samples

end Crystalline.Remote
