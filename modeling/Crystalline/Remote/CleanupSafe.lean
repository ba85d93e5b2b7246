import Mathlib.Data.List.Perm.Basic
import Crystalline.Remote.RetireSafe

/-!
# Branch cleanup closes nobody's pull request

A run of `retire_branches` over a queue of distinct branches that is bound in
no circle, whatever calls fail and wherever it is cut off.
-/

namespace Crystalline.Remote

open Programs

section

variable {spec : OriginSpec}

/-- The working order is the queue's entries. -/
theorem dependentsFirstLoop_perm (count : Nat) :
    ∀ queue : List QueuedBranch, queue.length = count →
      (dependentsFirstLoop count queue).Perm queue := by
  induction count with
  | zero =>
      intro queue empty
      rw [List.length_eq_zero_iff.mp empty]
      exact .nil
  | succ count ih =>
      intro queue size
      rw [dependentsFirstLoop]
      generalize found : (queue.findIdx? fun entry =>
        !queue.any fun other => other.onto = entry.branch) = first
      have inside : first.getD 0 < queue.length := by
        cases first with
        | none => simp only [Option.getD_none]; omega
        | some index =>
            obtain ⟨bound, _⟩ := List.findIdx?_eq_some_iff_getElem.mp found
            exact bound
      simp only [takeAt, List.getElem?_eq_getElem inside, Option.map_some]
      have rest := ih (queue.eraseIdx (first.getD 0)) (by
        rw [List.length_eraseIdx_of_lt inside]
        omega)
      exact (rest.cons _).trans (List.getElem_cons_eraseIdx_perm inside)

theorem dependentsFirst_perm (queue : List QueuedBranch) :
    (dependentsFirst queue).Perm queue :=
  dependentsFirstLoop_perm queue.length queue rfl

section Follow

variable {gone : QueuedBranch} {rest : List QueuedBranch}

@[simp] theorem followOne_branch (gone other : QueuedBranch) :
    (followOne gone other).branch = other.branch := by
  unfold followOne
  split <;> rfl

@[simp] theorem followOne_number (gone other : QueuedBranch) :
    (followOne gone other).number = other.number := by
  unfold followOne
  split <;> rfl

@[simp] theorem followOne_why (gone other : QueuedBranch) :
    (followOne gone other).why = other.why := by
  unfold followOne
  split <;> rfl

theorem followOne_onto (gone other : QueuedBranch) :
    (followOne gone other).onto =
      if other.onto = gone.branch then gone.onto else other.onto := by
  unfold followOne
  split <;> rfl

@[simp] theorem followRetired_branches (gone : QueuedBranch) (rest : List QueuedBranch) :
    (followRetired gone rest).map QueuedBranch.branch = rest.map QueuedBranch.branch := by
  unfold followRetired
  split
  · rfl
  · simp

theorem followRetired_append (gone : QueuedBranch) (left right : List QueuedBranch) :
    followRetired gone (left ++ right) =
      followRetired gone left ++ followRetired gone right := by
  unfold followRetired
  split
  · rfl
  · simp

/-- An entry behind a branch that is gone: what it was, and where it is bound
for now. -/
theorem mem_followRetired {entry : QueuedBranch} (member : entry ∈ followRetired gone rest) :
    ∃ other ∈ rest, entry.number = other.number ∧ entry.branch = other.branch ∧
      entry.why = other.why ∧
      (entry.onto = other.onto ∧ (gone.why = .merged → other.onto ≠ gone.branch) ∨
        gone.why = .merged ∧ other.onto = gone.branch ∧ entry.onto = gone.onto) := by
  unfold followRetired at member
  split at member
  · rename_i unmerged
    exact ⟨entry, member, rfl, rfl, rfl,
      Or.inl ⟨rfl, fun merged => (unmerged merged).elim⟩⟩
  · rename_i merged
    obtain ⟨other, otherMember, rfl⟩ := List.mem_map.mp member
    refine ⟨other, otherMember, by simp, by simp, by simp, ?_⟩
    rw [followOne_onto]
    by_cases bound : other.onto = gone.branch
    · exact Or.inr ⟨not_not.mp merged, bound, by simp [bound]⟩
    · exact Or.inl ⟨by simp [bound], fun _ => bound⟩

end Follow

/-- The entries a pass still holds, against the queue it started from. -/
structure Standing (queue : List QueuedBranch) (start : Repository)
    (others : List QueuedBranch) (world : Repository) : Prop where
  origin : ∀ entry ∈ others, ∃ first ∈ queue, first.number = entry.number ∧
    first.branch = entry.branch ∧ first.why = entry.why
  distinct : (others.map QueuedBranch.branch).Nodup
  bound : ∀ entry ∈ others, Relation.TransGen (BoundFor queue) entry.branch entry.onto
  kept : ∀ pull ∈ start.pulls, (∀ first ∈ queue, first.number ≠ pull.number) →
    ∃ other ∈ world.pulls, SamePull pull other
  gone : ∀ first ∈ queue, first.branch ∉ others.map QueuedBranch.branch →
    world.branches first.branch = none
  held : ∀ branch, .deleted branch ∈ world.log →
    branch ∉ others.map QueuedBranch.branch
  off : ∀ entry ∈ others, ∀ first ∈ queue, first.why = .merged →
    .deleted first.branch ∈ world.log → entry.onto ≠ first.branch

section Standing

variable {queue worked pending : List QueuedBranch} {entry result : QueuedBranch}
  {start world last : Repository}

theorem Standing.first (distinct : (queue.map QueuedBranch.branch).Nodup)
    (fresh : start.log = []) {order : List QueuedBranch} (same : order.Perm queue) :
    Standing queue start order start where
  origin entry member := ⟨entry, same.mem_iff.mp member, rfl, rfl, rfl⟩
  distinct := ((same.map _).nodup_iff).mpr distinct
  bound entry member := .single ⟨entry, same.mem_iff.mp member, rfl, rfl⟩
  kept pull member _ := ⟨pull, member, .refl pull⟩
  gone first member absent :=
    (absent (List.mem_map.mpr ⟨first, same.mem_iff.mpr member, rfl⟩)).elim
  held branch deleted := by simp [fresh] at deleted
  off _ _ _ _ _ deleted := by simp [fresh] at deleted

theorem Standing.keeps (standing : Standing queue start (worked ++ entry :: pending) world)
    (progress : Progress entry world last) :
    ∀ pull ∈ start.pulls, (∀ first ∈ queue, first.number ≠ pull.number) →
      ∃ other ∈ last.pulls, SamePull pull other := by
  intro pull member foreign
  obtain ⟨middle, middleMember, same⟩ := standing.kept pull member foreign
  obtain ⟨first, firstMember, number, -, -⟩ := standing.origin entry (by simp)
  have other : middle.number ≠ entry.number := by
    rw [same.number, ← number]
    exact (foreign first firstMember).symm
  obtain ⟨after, afterMember, same'⟩ := progress.kept middle middleMember other
  exact ⟨after, afterMember, same.trans same'⟩

theorem Standing.stays (standing : Standing queue start (worked ++ entry :: pending) world)
    (progress : Progress entry world last) (undeleted : Undeleted world last)
    (same : SameEntry entry result) :
    Standing queue start (worked ++ result :: pending) last where
  origin := by
    intro other member
    simp only [List.mem_append, List.mem_cons] at member
    rcases member with inWorked | rfl | inPending
    · exact standing.origin other (by simp [inWorked])
    · rw [same.number, same.branch, same.why]
      exact standing.origin entry (by simp)
    · exact standing.origin other (by simp [inPending])
  distinct := by simpa [same.branch] using standing.distinct
  bound := by
    intro other member
    simp only [List.mem_append, List.mem_cons] at member
    rcases member with inWorked | rfl | inPending
    · exact standing.bound other (by simp [inWorked])
    · rw [same.branch, same.onto]
      exact standing.bound entry (by simp)
    · exact standing.bound other (by simp [inPending])
  kept := standing.keeps progress
  gone := by
    intro first member absent
    apply progress.shrinks
    apply standing.gone first member
    simpa [same.branch] using absent
  held := by
    intro branch deleted
    simpa [same.branch] using standing.held branch (undeleted branch deleted)
  off := by
    intro other member first firstMember merged deleted
    have before := undeleted _ deleted
    simp only [List.mem_append, List.mem_cons] at member
    rcases member with inWorked | rfl | inPending
    · exact standing.off other (by simp [inWorked]) first firstMember merged before
    · rw [same.onto]
      exact standing.off entry (by simp) first firstMember merged before
    · exact standing.off other (by simp [inPending]) first firstMember merged before

theorem Progress.deleted (progress : Progress entry world last) {branch : String}
    (deleted : .deleted branch ∈ last.log) :
    .deleted branch ∈ world.log ∨ branch = entry.branch := by
  obtain ⟨events, log, allowed⟩ := progress.events
  rw [log] at deleted
  rcases List.mem_append.mp deleted with before | now
  · exact Or.inl before
  · exact Or.inr (allowed _ now)

theorem Standing.apart (standing : Standing queue start (worked ++ entry :: pending) world)
    (acyclic : Acyclic queue) : entry.onto ≠ entry.branch := by
  intro same
  have loop := standing.bound entry (by simp)
  rw [same] at loop
  exact acyclic _ loop

theorem Standing.goes (standing : Standing queue start (worked ++ entry :: pending) world)
    (distinct : (queue.map QueuedBranch.branch).Nodup) (acyclic : Acyclic queue)
    (progress : Progress entry world last) (missing : last.branches entry.branch = none)
    (same : SameEntry entry result) :
    Standing queue start (followRetired result (worked ++ pending)) last where
  origin := by
    intro other member
    obtain ⟨before, beforeMember, number, branch, why, -⟩ := mem_followRetired member
    rw [number, branch, why]
    apply standing.origin before
    simp only [List.mem_append, List.mem_cons] at beforeMember ⊢
    tauto
  distinct := by
    rw [followRetired_branches]
    have all := standing.distinct
    rw [List.map_append, List.map_cons, List.nodup_middle] at all
    rw [List.map_append]
    exact (List.nodup_cons.mp all).2
  bound := by
    intro other member
    obtain ⟨before, beforeMember, -, branch, -, onto⟩ := mem_followRetired member
    have beforeBound := standing.bound before (by
      simp only [List.mem_append, List.mem_cons] at beforeMember ⊢
      tauto)
    rw [branch]
    rcases onto with ⟨unmoved, -⟩ | ⟨-, toGone, moved⟩
    · rw [unmoved]
      exact beforeBound
    · rw [moved, same.onto]
      rw [toGone, same.branch] at beforeBound
      exact beforeBound.trans (standing.bound entry (by simp))
  kept := standing.keeps progress
  gone := by
    intro first member absent
    rw [followRetired_branches] at absent
    by_cases own : first.branch = entry.branch
    · rw [own]
      exact missing
    · apply progress.shrinks
      apply standing.gone first member
      simp only [List.map_append, List.map_cons, List.mem_append, List.mem_cons] at absent ⊢
      tauto
  held := by
    intro branch deleted
    rw [followRetired_branches]
    have all := standing.distinct
    rw [List.map_append, List.map_cons, List.nodup_middle] at all
    rcases progress.deleted deleted with before | rfl
    · have absent := standing.held branch before
      simp only [List.map_append, List.map_cons, List.mem_append, List.mem_cons] at absent ⊢
      tauto
    · rw [List.map_append]
      exact (List.nodup_cons.mp all).1
  off := by
    intro other member first firstMember merged deleted
    obtain ⟨before, beforeMember, -, -, -, onto⟩ := mem_followRetired member
    have beforeHeld : before ∈ worked ++ entry :: pending := by
      simp only [List.mem_append, List.mem_cons] at beforeMember ⊢
      tauto
    have apart := standing.apart acyclic
    rcases progress.deleted deleted with earlier | now
    · rcases onto with ⟨unmoved, -⟩ | ⟨-, -, moved⟩
      · rw [unmoved]
        exact standing.off before beforeHeld first firstMember merged earlier
      · rw [moved, same.onto]
        exact standing.off entry (by simp) first firstMember merged earlier
    · -- The branch deleted now is the entry's, which is merged as well.
      obtain ⟨queued, queuedMember, -, branch, why⟩ := standing.origin entry (by simp)
      have isQueued : first = queued :=
        List.inj_on_of_nodup_map distinct firstMember queuedMember (now.trans branch.symm)
      have entryMerged : result.why = .merged := by
        rw [same.why, ← why, ← isQueued]
        exact merged
      rw [now]
      rcases onto with ⟨unmoved, elsewhere⟩ | ⟨-, -, moved⟩
      · rw [unmoved, ← same.branch]
        exact elsewhere entryMerged
      · rw [moved, same.onto]
        exact apart

end Standing

end

variable {spec : OriginSpec}

/-- The loop over the pending entries, wherever it ends. -/
structure PassSafe (queue : List QueuedBranch) (start : Repository)
    (pending : List QueuedBranch) (world last : Repository) : Prop where
  kept : ∀ pull ∈ start.pulls, (∀ first ∈ queue, first.number ≠ pull.number) →
    ∃ other ∈ last.pulls, SamePull pull other
  rounds : ∃ log, last.log = world.log ++ log ∧ Rounds pending log
  saved : last.saved = world.saved

/-- How the loop over the pending entries ends. -/
def PassEnds (queue : List QueuedBranch) (start : Repository)
    (pending : List QueuedBranch) (world : Repository) :
    Ending RemoteError (List QueuedBranch) → Repository → Prop
  | .returned remaining, last => PassSafe queue start pending world last ∧
      Standing queue start remaining last
  | .failed _, _ => False
  | .cut, last => PassSafe queue start pending world last

section Loop

variable {queue pending rest : List QueuedBranch} {entry : QueuedBranch}
  {start world middle last : Repository}

/-- One entry's events in front of those of the entries behind it. -/
theorem PassSafe.after (progress : Progress entry world middle)
    (behind : ∀ {events log : List CleanupEvent},
      (∀ event ∈ events, AllowedBy entry event) → Rounds rest log →
        Rounds (entry :: pending) (events ++ log))
    (safe : PassSafe queue start rest middle last) :
    PassSafe queue start (entry :: pending) world last where
  kept := safe.kept
  rounds := by
    obtain ⟨events, eventsLog, allowed⟩ := progress.events
    obtain ⟨log, restLog, rounds⟩ := safe.rounds
    exact ⟨events ++ log, by rw [restLog, eventsLog, List.append_assoc],
      behind allowed rounds⟩
  saved := safe.saved.trans progress.saved

theorem followRetired_same {result : QueuedBranch} (same : SameEntry entry result)
    (pending : List QueuedBranch) :
    followRetired result pending = followRetired entry pending := by
  unfold followRetired followOne
  rw [same.why, same.branch, same.onto]

variable (spec) in
theorem ensures_retirePending (distinct : (queue.map QueuedBranch.branch).Nodup)
    (acyclic : Acyclic queue) (count : Nat) :
    ∀ (pending worked : List QueuedBranch) (opened : List OpenProposalRef)
      (world : Repository), pending.length = count → Lists opened world →
      Standing queue start (worked ++ pending) world →
      Ensures (Cleans spec) (PassEnds queue start pending world)
        (retirePending spec opened worked pending) world := by
  induction count with
  | zero =>
      intro pending worked opened world size lists standing
      rw [List.length_eq_zero_iff.mp size] at standing ⊢
      rw [retirePending]
      have safe : PassSafe queue start [] world world :=
        ⟨standing.kept, ⟨[], by simp, .rest []⟩, rfl⟩
      rw [List.append_nil] at standing
      exact ⟨safe, safe, standing⟩
  | succ count ih =>
      intro pending worked opened world size lists standing
      cases pending with
      | nil => simp at size
      | cons entry pending =>
          have shorter : pending.length = count := by simpa using size
          rw [retirePending]
          apply (ensures_retireOne worked pending (standing.apart acyclic) lists).bind
          · rintro ⟨opened', result, retired⟩ last ⟨progress, retiring⟩
            cases retired with
            | gone =>
                have after := standing.goes distinct acyclic progress
                  (retiring.gone rfl) retiring.same
                rw [followRetired_append] at after
                have rest := ih _ _ opened' last (by simpa using shorter)
                  retiring.lists after
                apply rest.mono
                have behind := fun {events log : List CleanupEvent}
                    (allowed : ∀ event ∈ events, AllowedBy entry event)
                    (rounds : Rounds (followRetired result pending) log) =>
                  Rounds.gone allowed (followRetired_same retiring.same pending ▸ rounds)
                intro ending final ends
                cases ending with
                | returned remaining => exact ⟨ends.1.after progress behind, ends.2⟩
                | failed error => exact ends
                | cut => exact PassSafe.after progress behind ends
            | stays =>
                have after := standing.stays progress (retiring.stays rfl) retiring.same
                have split : worked ++ result :: pending = (worked ++ [result]) ++ pending := by
                  simp
                rw [split] at after
                have rest := ih _ _ opened' last shorter retiring.lists after
                apply rest.mono
                intro ending final ends
                cases ending with
                | returned remaining => exact ⟨ends.1.after progress .stays, ends.2⟩
                | failed error => exact ends
                | cut => exact PassSafe.after progress .stays ends
          · intro error last impossible
            exact impossible
          · intro last progress
            obtain ⟨events, log, allowed⟩ := progress.events
            exact ⟨standing.keeps progress,
              ⟨events, log, by simpa using Rounds.stays allowed (.rest pending)⟩,
              progress.saved⟩

end Loop

/-- A legal log moves pull requests off merged entries' branches and deletes
queued branches. -/
theorem Rounds.allowed {pending : List QueuedBranch} {log : List CleanupEvent}
    (rounds : Rounds pending log) :
    (∀ number off onto, .moved number off onto ∈ log →
      ∃ entry ∈ pending, entry.why = .merged ∧ entry.branch = off) ∧
    ∀ branch, .deleted branch ∈ log → ∃ entry ∈ pending, entry.branch = branch := by
  induction rounds with
  | rest pending => simp
  | @stays entry pending events log allowed _ ih =>
      constructor
      · intro number off onto member
        rcases List.mem_append.mp member with now | later
        · obtain ⟨merged, rfl, -⟩ := allowed _ now
          exact ⟨entry, List.mem_cons_self, merged, rfl⟩
        · obtain ⟨other, otherMember, facts⟩ := ih.1 number off onto later
          exact ⟨other, List.mem_cons_of_mem _ otherMember, facts⟩
      · intro branch member
        rcases List.mem_append.mp member with now | later
        · exact ⟨entry, List.mem_cons_self, (allowed _ now).symm⟩
        · obtain ⟨other, otherMember, same⟩ := ih.2 branch later
          exact ⟨other, List.mem_cons_of_mem _ otherMember, same⟩
  | @gone entry pending events log allowed _ ih =>
      constructor
      · intro number off onto member
        rcases List.mem_append.mp member with now | later
        · obtain ⟨merged, rfl, -⟩ := allowed _ now
          exact ⟨entry, List.mem_cons_self, merged, rfl⟩
        · obtain ⟨followed, followedMember, merged, same⟩ := ih.1 number off onto later
          obtain ⟨other, otherMember, -, branch, why, -⟩ := mem_followRetired followedMember
          exact ⟨other, List.mem_cons_of_mem _ otherMember, by rw [← why]; exact merged,
            by rw [← branch]; exact same⟩
      · intro branch member
        rcases List.mem_append.mp member with now | later
        · exact ⟨entry, List.mem_cons_self, (allowed _ now).symm⟩
        · obtain ⟨followed, followedMember, same⟩ := ih.2 branch later
          obtain ⟨other, otherMember, -, sameBranch, -, -⟩ := mem_followRetired followedMember
          exact ⟨other, List.mem_cons_of_mem _ otherMember, by rw [← sameBranch]; exact same⟩

/-- What a cleanup of `queue` does to the repository, wherever it ends. -/
structure CleanupSafe (queue : List QueuedBranch) (start : Repository)
    (ending : Ending RemoteError OriginState) (last : Repository) : Prop where
  /-- No open pull request is closed but the queued shares' own. -/
  closesNone : ∀ pull ∈ start.pulls, (∀ entry ∈ queue, entry.number ≠ pull.number) →
    ∃ other ∈ last.pulls, SamePull pull other
  /-- Each move and each deletion is that of the entry worked, as it is bound then. -/
  rounds : Rounds (dependentsFirst queue) last.log
  /-- Pull requests are moved off merged entries' branches only. -/
  movesMerged : ∀ number off onto, .moved number off onto ∈ last.log →
    (∃ entry ∈ queue, entry.branch = off) ∧
      ∀ entry ∈ queue, entry.branch = off → entry.why = .merged
  deletesQueued : ∀ branch, .deleted branch ∈ last.log →
    ∃ entry ∈ queue, entry.branch = branch
  /-- The saved queue loses an entry only when its branch is gone. -/
  dropsGone : ∀ entry ∈ queue, entry.branch ∉ last.saved.map QueuedBranch.branch →
    last.branches entry.branch = none
  returns : ∀ state, ending = .returned state →
    (∀ entry ∈ queue, entry.branch ∉ state.retireQueue.map QueuedBranch.branch →
      last.branches entry.branch = none) ∧
    /- No merged entry with pull requests still waiting is bound for a merged
    branch the pass deleted. -/
    ∀ entry ∈ state.retireQueue, entry.why = .merged →
      (∃ pull ∈ last.pulls, basedOn entry pull) →
      ∀ first ∈ queue, first.why = .merged → .deleted first.branch ∈ last.log →
        entry.onto ≠ first.branch

variable {ending : Ending RemoteError OriginState}

/-- The safety of a cleanup from the safety of its loop. -/
theorem PassSafe.cleanup {queue : List QueuedBranch} {start last : Repository}
    (distinct : (queue.map QueuedBranch.branch).Nodup) (fresh : start.log = [])
    (safe : PassSafe queue start (dependentsFirst queue) start last) (saved : List QueuedBranch)
    (same : ∀ entry ∈ queue,
      entry.branch ∉ saved.map QueuedBranch.branch → last.branches entry.branch = none)
    (returns : ∀ state, ending = .returned state →
      Standing queue start state.retireQueue last) :
    CleanupSafe queue start ending { last with saved := saved } := by
  obtain ⟨log, lastLog, rounds⟩ := safe.rounds
  rw [fresh, List.nil_append] at lastLog
  obtain ⟨moves, deletes⟩ := rounds.allowed
  have inQueue : ∀ entry, entry ∈ dependentsFirst queue ↔ entry ∈ queue :=
    fun _ => (dependentsFirst_perm queue).mem_iff
  refine ⟨safe.kept, by rw [lastLog]; exact rounds, ?_, ?_, same, ?_⟩
  · intro number off onto member
    rw [lastLog] at member
    obtain ⟨entry, entryMember, merged, branch⟩ := moves number off onto member
    refine ⟨⟨entry, (inQueue entry).mp entryMember, branch⟩, ?_⟩
    intro other otherMember otherBranch
    have isEntry := List.inj_on_of_nodup_map distinct otherMember
      ((inQueue entry).mp entryMember) (otherBranch.trans branch.symm)
    rw [isEntry]
    exact merged
  · intro branch member
    rw [lastLog] at member
    obtain ⟨entry, entryMember, same⟩ := deletes branch member
    exact ⟨entry, (inQueue entry).mp entryMember, same⟩
  · intro state ended
    have standing := returns state ended
    refine ⟨standing.gone, ?_⟩
    intro entry member _ _ first firstMember merged deleted
    exact standing.off entry member first firstMember merged deleted

@[simp] theorem unlisted_branch (error : RemoteError) (entry : QueuedBranch) :
    (unlisted error entry).branch = entry.branch := by
  unfold unlisted
  split <;> rfl

theorem cleanup_untouched {queue saved : List QueuedBranch} {start : Repository}
    (fresh : start.log = []) (same : saved.map QueuedBranch.branch = queue.map QueuedBranch.branch)
    (returns : ∀ state, ending = .returned state →
      state.retireQueue.map QueuedBranch.branch = queue.map QueuedBranch.branch) :
    CleanupSafe queue start ending { start with saved := saved } where
  closesNone pull member _ := ⟨pull, member, .refl pull⟩
  rounds := by
    rw [fresh]
    exact .rest _
  movesMerged _ _ _ member := by simp [fresh] at member
  deletesQueued _ member := by simp [fresh] at member
  dropsGone entry member absent := by
    rw [same] at absent
    exact (absent (List.mem_map_of_mem member)).elim
  returns := by
    intro state ended
    constructor
    · intro entry member absent
      rw [returns state ended] at absent
      exact (absent (List.mem_map_of_mem member)).elim
    · intro _ _ _ _ _ _ _ deleted
      simp [fresh] at deleted

variable (spec) in
/-- Cleanup closes nobody's pull request, whichever calls fail. -/
theorem retire_branches_safe (state : OriginState) {start last : Repository}
    {ending : Ending RemoteError OriginState}
    (distinct : (state.retireQueue.map QueuedBranch.branch).Nodup)
    (acyclic : Acyclic state.retireQueue) (fresh : start.log = [])
    (recorded : start.saved = state.retireQueue)
    (run : Runs (Cleans spec) start (retireBranches spec state) ending last) :
    CleanupSafe state.retireQueue start ending last := by
  have untouched : ∀ ending : Ending RemoteError OriginState,
      (∀ left, ending = .returned left →
        left.retireQueue.map QueuedBranch.branch =
          state.retireQueue.map QueuedBranch.branch) →
      CleanupSafe state.retireQueue start ending start := by
    intro ending returns
    exact cleanup_untouched fresh (by rw [recorded]) returns
  have cut := untouched .cut nofun
  suffices ensured : Ensures (Cleans spec) (CleanupSafe state.retireQueue start)
      (retireBranches spec state) start from ensured.of_run run
  unfold retireBranches
  split
  · refine ⟨cut, untouched _ ?_⟩
    intro left equality
    rw [Ending.returned.inj equality]
  · refine ⟨cut, ?_⟩
    intro answer middle answered
    obtain ⟨rfl, listed⟩ := answered.of_list
    cases answer with
    | error error =>
        have renamed : (state.retireQueue.map (unlisted error)).map QueuedBranch.branch =
            state.retireQueue.map QueuedBranch.branch := by simp
        refine ⟨cut, ?_⟩
        intro answer final answered
        rcases answered.of_save with rfl | rfl
        · refine ⟨cut, untouched _ ?_⟩
          intro left equality
          rw [← Ending.returned.inj equality]
          exact renamed
        · refine ⟨cleanup_untouched fresh renamed nofun,
            cleanup_untouched fresh renamed ?_⟩
          intro left equality
          rw [← Ending.returned.inj equality]
          exact renamed
    | ok opened =>
        obtain rfl := listed opened rfl
        have lists : Lists middle.pulls middle := ⟨fun _ member => member, middle.numbered⟩
        have order := dependentsFirst_perm state.retireQueue
        have loop := ensures_retirePending spec
          distinct acyclic _ (dependentsFirst state.retireQueue) [] middle.pulls middle rfl
          lists (Standing.first distinct fresh order)
        apply Ensures.bind loop
        · intro remaining final ends
          obtain ⟨safe, standing⟩ := ends
          have savedThen : final.saved = state.retireQueue := safe.saved.trans recorded
          have early : ∀ ending : Ending RemoteError OriginState,
              (∀ left, ending = .returned left → left.retireQueue = remaining) →
              CleanupSafe state.retireQueue middle ending final := by
            intro ending returns
            apply safe.cleanup distinct fresh final.saved
            · intro entry member absent
              rw [savedThen] at absent
              exact (absent (List.mem_map_of_mem member)).elim
            · intro left ended
              rw [returns left ended]
              exact standing
          refine ⟨early .cut nofun, ?_⟩
          intro answer last answered
          rcases answered.of_save with rfl | rfl
          · refine ⟨early .cut nofun, early _ ?_⟩
            intro left equality
            rw [← Ending.returned.inj equality]
          · have late : ∀ ending : Ending RemoteError OriginState, _ → CleanupSafe _ _ ending _ :=
              fun ending => safe.cleanup distinct fresh remaining standing.gone
            refine ⟨late .cut nofun, late _ ?_⟩
            intro left equality
            rw [← Ending.returned.inj equality]
            exact standing
        · intro error final impossible
          exact impossible.elim
        · intro final safe
          apply safe.cleanup distinct fresh final.saved
          · intro entry member absent
            rw [safe.saved, recorded] at absent
            exact (absent (List.mem_map_of_mem member)).elim
          · nofun

section MergedBottom

/-- A merged bottom layer whose branch the layer above is still based on. -/
def mergedBottom : QueuedBranch := ⟨1, "share-1", "main", .merged, none⟩

def layerAbove : OpenProposalRef := ⟨2, "share-2", "c2", "share-1", some "team/notes"⟩

def teamSpec : OriginSpec := ⟨"team/notes", none, "main"⟩

def beforeCleanup : Repository where
  branches branch := if branch ∈ ["main", "share-1", "share-2"] then some "c" else none
  pulls := [layerAbove]
  numbered := by decide
  saved := [mergedBottom]
  log := []

def afterCleanup : Repository :=
  { (beforeCleanup.move layerAbove "main").delete teamSpec "share-1" with saved := [] }

def queuedState : OriginState := { OriginState.new "main" with retireQueue := [mergedBottom] }

/-- The layer above is moved to the trunk, then the branch is deleted. -/
theorem retire_branches_safe_stacked :
    CleanupSafe [mergedBottom] beforeCleanup (.returned { queuedState with retireQueue := [] })
      afterCleanup := by
  have acyclic : Acyclic [mergedBottom] := by
    have target : ∀ branch onto, Relation.TransGen (BoundFor [mergedBottom]) branch onto →
        onto = "main" ∧ branch ≠ "main" := by
      intro branch onto bound
      induction bound with
      | single step =>
          obtain ⟨entry, member, rfl, rfl⟩ := step
          obtain rfl := List.mem_singleton.mp member
          decide
      | tail _ step ih =>
          obtain ⟨entry, member, branch, rfl⟩ := step
          obtain rfl := List.mem_singleton.mp member
          exact ⟨rfl, ih.2⟩
    intro branch bound
    exact (target _ _ bound).2 (target _ _ bound).1
  have pass : Runs (Cleans teamSpec) beforeCleanup
      (retirePending teamSpec [layerAbove] [] [mergedBottom]) (.returned [])
      ((beforeCleanup.move layerAbove "main").delete teamSpec "share-1") := by
    rw [retirePending]
    have worked : Runs (Cleans teamSpec) beforeCleanup
        (retireOne teamSpec [layerAbove] mergedBottom [] [])
        (.returned ([{ layerAbove with base := "main" }], mergedBottom, .gone))
        ((beforeCleanup.move layerAbove "main").delete teamSpec "share-1") :=
      .call (.moves (List.mem_singleton.mpr rfl) (by decide))
        (.call (.deletes (by decide)) .done)
    apply worked.bind
    · change Runs _ _ (retirePending _ _ [] []) _ _
      rw [retirePending]
      exact .done
  apply retire_branches_safe teamSpec queuedState (by decide) acyclic rfl rfl
  exact .call .lists (pass.bind (.call .saves .done))

end MergedBottom

end Crystalline.Remote
