import Crystalline.Sync.Hosting

/-!
# Host locks borrowed under one instance id

A one-shot command claims the lock of its own machine's daemon and gives it back
through its lease, which names the token it replaced.  The tokens a row has
carried since the daemon's claim form a stack, and a lease is given back to the
row only from the top of it.
-/

namespace Crystalline.Sync

/-- What a holder keeps of a claim it acquired. -/
structure HostLease where
  token : String
  /-- The token of the live claim under the same instance id it replaced. -/
  replaced : Option String
  deriving DecidableEq, Repr

/-- The token of a live claim an instance holds, if `holder` is one. -/
def liveOwnToken (holder : Option DomainHost) (instanceId : String) (staleBefore : Nat) :
    Option String :=
  (holder.filter fun held => held.holder = instanceId && staleBefore ≤ held.heartbeat).map
    DomainHost.token

namespace DomainState

/-- `Claimed::lease`: what a claim of the lock leaves its claimer. -/
def leaseOf (state : DomainState) (claim : Claim) : Option HostLease :=
  let lock := claimDomainHost claim state.lock
  if lock.holder = claim.claimer then
    some ⟨lock.token, liveOwnToken state.lock claim.claimer claim.staleBefore⟩
  else none

/-- `give_back`. -/
def giveBack (state : DomainState) (instanceId : String) (lease : HostLease) : DomainState :=
  match lease.replaced with
  | some previous => state.handBack instanceId lease.token previous
  | none => state.release instanceId lease.token

end DomainState

/-- The database, the leases that are still out, and the tokens drawn so far. -/
structure Lending where
  state : DomainState
  lent : List HostLease
  drawn : List String

/-- What a process of the machine does to the lock. -/
inductive Borrow where
  | claimed (claim : Claim)
  | gaveBack (lease : HostLease)
  | renewed (label : String) (now : Nat)

/-- One transaction of the instance: a claim draws a new token and meets a live
row, and a lease is given back once. -/
inductive Lends (instanceId : String) : Lending → Borrow → Lending → Prop where
  | claim {world : Lending} {claim : Claim} {lease : HostLease}
      (own : claim.claimer = instanceId) (fresh : claim.token ∉ world.drawn)
      (live : ∀ held, world.state.lock = some held → claim.staleBefore ≤ held.heartbeat)
      (taken : world.state.leaseOf claim = some lease) :
      Lends instanceId world (.claimed claim)
        ⟨world.state.claimAndMark claim, lease :: world.lent, claim.token :: world.drawn⟩
  | giveBack (state : DomainState) (lease : HostLease) (before after : List HostLease)
      (drawn : List String) :
      Lends instanceId ⟨state, before ++ lease :: after, drawn⟩ (.gaveBack lease)
        ⟨state.giveBack instanceId lease, before ++ after, drawn⟩
  | renew (world : Lending) (label : String) (now : Nat) :
      Lends instanceId world (.renewed label now)
        { world with state := world.state.renew instanceId label now }

/-- One step of a run, with the lending before it and the lock after it. -/
structure LendingEvent where
  before : Lending
  action : Borrow
  lock : Option DomainHost

/-- A run and its history, the newest event first. -/
inductive LendingRun (instanceId : String) : Lending → List LendingEvent → Lending → Prop where
  | start (world : Lending) : LendingRun instanceId world [] world
  | step {start world next : Lending} {past : List LendingEvent} {action : Borrow} :
      LendingRun instanceId start past world → Lends instanceId world action next →
      LendingRun instanceId start (⟨world, action, next.state.lock⟩ :: past) next

/-- The daemon holds the lock, and no command has claimed it. -/
structure Lending.HeldBy (world : Lending) (instanceId token : String) : Prop where
  held : ∃ row, world.state.lock = some row ∧ row.holder = instanceId ∧ row.token = token
  unlent : world.lent = []
  drawn : token ∈ world.drawn

/-- A lease is given back while its own claim holds the row. -/
def LendingEvent.InTurn (event : LendingEvent) : Prop :=
  ∀ lease, event.action = .gaveBack lease →
    ∃ row, event.before.state.lock = some row ∧ row.token = lease.token

/-- A lease given back leaves a row there, and leaves the row of another claim as
it is. -/
def LendingEvent.Spares (event : LendingEvent) : Prop :=
  ∀ lease, event.action = .gaveBack lease →
    event.lock.isSome = true ∧
      ((∃ other ∈ event.before.lent, other ≠ lease ∧
          ∃ row, event.before.state.lock = some row ∧ row.token = other.token) →
        event.lock = event.before.state.lock)

/-- The tokens the row has carried since the daemon's claim, those given back in
turn left out: the row's own on top, the daemon's at the bottom. -/
structure Lending.Stacked (world : Lending) (instanceId token : String) (stack : List String) :
    Prop where
  row : ∃ held, world.state.lock = some held ∧ held.holder = instanceId ∧
    stack.head? = some held.token
  bottom : ∃ above, stack = above ++ [token]
  distinct : stack.Nodup
  drawn : ∀ carried ∈ stack, carried ∈ world.drawn
  /-- A lease that is out names the token below its own. -/
  placed : ∀ lease ∈ world.lent, ∃ front previous back,
    stack = front ++ lease.token :: previous :: back ∧ lease.replaced = some previous
  apart : (world.lent.map HostLease.token).Nodup

/-- Every token above the daemon's is one of a lease that is out. -/
def Lending.Covers (world : Lending) (token : String) (stack : List String) : Prop :=
  ∀ carried ∈ stack, carried = token ∨ ∃ lease ∈ world.lent, lease.token = carried

section Stacks

variable {instanceId token : String} {world next : Lending} {stack : List String}

theorem Lending.HeldBy.stacked (held : world.HeldBy instanceId token) :
    world.Stacked instanceId token [token] ∧ world.Covers token [token] := by
  obtain ⟨row, locked, holder, same⟩ := held.held
  refine ⟨⟨⟨row, locked, holder, by rw [same]; rfl⟩, ⟨[], rfl⟩, by simp, ?_, ?_, ?_⟩, ?_⟩
  · intro carried member
    rw [List.mem_singleton.mp member]
    exact held.drawn
  · intro lease member
    rw [held.unlent] at member
    cases member
  · rw [held.unlent]
    exact List.nodup_nil
  · intro carried member
    exact .inl (List.mem_singleton.mp member)

variable {state : DomainState} {row : DomainHost} {lease : HostLease}
  {before after : List HostLease}

theorem claim_over_live {claim : Claim} (locked : state.lock = some row)
    (holder : row.holder = instanceId) (own : claim.claimer = instanceId)
    (live : claim.staleBefore ≤ row.heartbeat) :
    (state.claimAndMark claim).lock = some ⟨instanceId, claim.label, claim.token, claim.now⟩ ∧
      state.leaseOf claim = some ⟨claim.token, some row.token⟩ := by
  have written : claimDomainHost claim state.lock =
      ⟨instanceId, claim.label, claim.token, claim.now⟩ := by
    simp [claimDomainHost, locked, holder, own]
  constructor
  · simp only [DomainState.claimAndMark, written]
    split <;> rfl
  · have replaced : liveOwnToken state.lock claim.claimer claim.staleBefore = some row.token := by
      simp [liveOwnToken, locked, holder, own, live]
    rw [DomainState.leaseOf, written, replaced]
    exact if_pos own.symm

/-- A claim puts its token on top. -/
theorem Lending.Stacked.claim {claim : Claim} (stacked : world.Stacked instanceId token stack)
    (own : claim.claimer = instanceId) (fresh : claim.token ∉ world.drawn)
    (live : ∀ held, world.state.lock = some held → claim.staleBefore ≤ held.heartbeat)
    (taken : world.state.leaseOf claim = some lease) :
    Lending.Stacked ⟨world.state.claimAndMark claim, lease :: world.lent,
        claim.token :: world.drawn⟩ instanceId token (claim.token :: stack) ∧
      (Lending.Covers ⟨world.state.claimAndMark claim, lease :: world.lent,
        claim.token :: world.drawn⟩ token (claim.token :: stack) ↔ world.Covers token stack) := by
  obtain ⟨row, locked, holder, top⟩ := stacked.row
  obtain ⟨written, leased⟩ := claim_over_live locked holder own (live row locked)
  rw [leased] at taken
  obtain rfl := Option.some.inj taken
  obtain ⟨below, rfl⟩ : ∃ below, stack = row.token :: below := by
    cases stack with
    | nil => cases top
    | cons carried below => exact ⟨below, by rw [Option.some.inj top]⟩
  have unseen : claim.token ∉ row.token :: below := fun member =>
    fresh (stacked.drawn _ member)
  refine ⟨⟨⟨_, written, rfl, rfl⟩, ?_, List.nodup_cons.mpr ⟨unseen, stacked.distinct⟩, ?_, ?_,
    ?_⟩, ?_⟩
  · obtain ⟨above, same⟩ := stacked.bottom
    exact ⟨claim.token :: above, by rw [same]; rfl⟩
  · intro carried member
    rcases List.mem_cons.mp member with rfl | member
    · exact List.mem_cons_self
    · exact List.mem_cons_of_mem _ (stacked.drawn carried member)
  · intro other member
    rcases List.mem_cons.mp member with rfl | member
    · exact ⟨[], row.token, below, rfl, rfl⟩
    · obtain ⟨front, previous, back, same, replaced⟩ := stacked.placed other member
      exact ⟨claim.token :: front, previous, back, by rw [same]; rfl, replaced⟩
  · rw [List.map_cons, List.nodup_cons]
    refine ⟨?_, stacked.apart⟩
    intro member
    obtain ⟨other, inside, same⟩ := List.mem_map.mp member
    obtain ⟨front, previous, back, whole, -⟩ := stacked.placed other inside
    have drawnToken : other.token = claim.token := same
    refine unseen ?_
    rw [whole, ← drawnToken]
    simp
  · constructor
    · intro covers carried member
      rcases covers carried (List.mem_cons_of_mem _ member) with bottom | ⟨other, inside, same⟩
      · exact .inl bottom
      · rcases List.mem_cons.mp inside with rfl | inside
        · obtain rfl : claim.token = carried := same
          exact absurd member unseen
        · exact .inr ⟨other, inside, same⟩
    · intro covers carried member
      rcases List.mem_cons.mp member with rfl | member
      · exact .inr ⟨_, List.mem_cons_self, rfl⟩
      · rcases covers carried member with bottom | ⟨other, inside, same⟩
        · exact .inl bottom
        · exact .inr ⟨other, List.mem_cons_of_mem _ inside, same⟩

theorem distinct_token {first second : HostLease}
    (apart : ((before ++ first :: after).map HostLease.token).Nodup)
    (member : second ∈ before ++ after) : second.token ≠ first.token := by
  intro same
  rw [List.map_append, List.map_cons, List.nodup_middle, List.nodup_cons, ← List.map_append]
    at apart
  exact apart.1 (List.mem_map.mpr ⟨second, member, same⟩)

section

variable {drawn : List String}
  (stacked : Lending.Stacked ⟨state, before ++ lease :: after, drawn⟩ instanceId token stack)
  (locked : state.lock = some row)
include stacked locked

/-- A lease given back in turn takes the top off. -/
theorem Lending.Stacked.giveBackTop (own : row.token = lease.token) :
    ∃ rest previous, stack = lease.token :: rest ∧ lease.replaced = some previous ∧
      (state.giveBack instanceId lease).lock = some { row with token := previous } ∧
      Lending.Stacked ⟨state.giveBack instanceId lease, before ++ after, drawn⟩ instanceId token
        rest := by
  obtain ⟨held, same, holder, top⟩ := stacked.row
  obtain rfl : row = held := Option.some.inj (locked.symm.trans same)
  obtain ⟨front, previous, back, whole, replaced⟩ := stacked.placed lease (by simp)
  -- The token is on top, and it stands in the stack once.
  obtain rfl : front = [] := by
    cases front with
    | nil => rfl
    | cons first front =>
        have distinct := stacked.distinct
        rw [whole] at top distinct
        obtain rfl : first = row.token := Option.some.inj top
        rw [own] at distinct
        exact absurd distinct (by simp)
  have given : (state.giveBack instanceId lease).lock = some { row with token := previous } := by
    simp [DomainState.giveBack, replaced, DomainState.handBack, locked, holder, own]
  subst whole
  refine ⟨previous :: back, previous, rfl, replaced, given, ⟨⟨_, given, holder, rfl⟩, ?_,
    (List.nodup_cons.mp stacked.distinct).2, ?_, ?_, ?_⟩⟩
  · obtain ⟨above, bottom⟩ := stacked.bottom
    cases above with
    | nil => cases bottom
    | cons first above => exact ⟨above, (List.cons.inj bottom).2⟩
  · intro carried member
    exact stacked.drawn carried (List.mem_cons_of_mem _ member)
  · intro other member
    obtain ⟨front, under, below, inside, above⟩ := stacked.placed other (by
      rcases List.mem_append.mp member with member | member
      · exact List.mem_append_left _ member
      · exact List.mem_append_right _ (List.mem_cons_of_mem _ member))
    cases front with
    | nil =>
        exact absurd (List.cons.inj inside).1.symm (distinct_token stacked.apart member)
    | cons first front => exact ⟨front, under, below, (List.cons.inj inside).2, above⟩
  · have apart := stacked.apart
    rw [List.map_append, List.map_cons, List.nodup_middle, List.nodup_cons, ← List.map_append]
      at apart
    exact apart.2

/-- A lease given back out of turn leaves everything, its token too. -/
theorem Lending.Stacked.giveBackBelow (other : row.token ≠ lease.token) :
    state.giveBack instanceId lease = state ∧
      Lending.Stacked ⟨state, before ++ after, drawn⟩ instanceId token stack ∧
      ¬ Lending.Covers ⟨state, before ++ after, drawn⟩ token stack := by
  obtain ⟨front, previous, back, whole, replaced⟩ := stacked.placed lease (by simp)
  have kept : ∀ lent ∈ before ++ after, lent ∈ before ++ lease :: after := by
    intro lent member
    rcases List.mem_append.mp member with member | member
    · exact List.mem_append_left _ member
    · exact List.mem_append_right _ (List.mem_cons_of_mem _ member)
  refine ⟨?_, ⟨stacked.row, stacked.bottom, stacked.distinct, stacked.drawn,
    fun lent member => stacked.placed lent (kept lent member), ?_⟩, ?_⟩
  · have same : state.lock.map (fun held =>
        if held.holder = instanceId && held.token = lease.token then
          { held with token := previous } else held) = state.lock := by
      simp [locked, other]
    rw [DomainState.giveBack, replaced]
    simp only [DomainState.handBack]
    rw [same]
  · have apart := stacked.apart
    rw [List.map_append, List.map_cons, List.nodup_middle, List.nodup_cons, ← List.map_append]
      at apart
    exact apart.2
  · intro covers
    rcases covers lease.token (by rw [whole]; simp) with bottom | ⟨lent, member, same⟩
    · -- The daemon's token is the last one, and the lease's is not.
      obtain ⟨above, last⟩ := stacked.bottom
      have distinct := stacked.distinct
      rw [whole, bottom] at last
      rw [whole, bottom] at distinct
      have tail : token ∈ previous :: back := by
        have shape : front ++ token :: previous :: back =
            (front ++ [token]) ++ (previous :: back) := by simp
        rw [shape] at last
        have reversed := congrArg List.getLast? last
        rw [List.getLast?_append_of_ne_nil _ (by simp), List.getLast?_append_of_ne_nil _ (by simp)]
          at reversed
        exact List.mem_of_getLast? reversed
      exact (List.nodup_cons.mp (List.nodup_append.mp distinct).2.1).1 tail
    · exact distinct_token stacked.apart member same

end

/-- What one step does to the stack, and to the row when it gives a lease back. -/
theorem Lends.stacked {action : Borrow} (lends : Lends instanceId world action next)
    (stacked : world.Stacked instanceId token stack) :
    ∃ after, next.Stacked instanceId token after ∧
      (next.Covers token after ↔ world.Covers token stack ∧
        LendingEvent.InTurn ⟨world, action, next.state.lock⟩) ∧
      LendingEvent.Spares ⟨world, action, next.state.lock⟩ := by
  cases lends with
  | claim own fresh live taken =>
      obtain ⟨after, covers⟩ := stacked.claim own fresh live taken
      refine ⟨_, after, ?_, ?_⟩
      · rw [covers]
        refine ⟨fun holds => ⟨holds, ?_⟩, fun holds => holds.1⟩
        intro lease same
        cases same
      · intro lease same
        cases same
  | renew _ label now =>
      obtain ⟨row, locked, holder, top⟩ := stacked.row
      refine ⟨stack, ⟨⟨{ row with
        heartbeat := now, label := if label = "" then row.label else label }, ?_, holder, top⟩,
        stacked.bottom, stacked.distinct, stacked.drawn, stacked.placed, stacked.apart⟩, ?_, ?_⟩
      · simp [DomainState.renew, locked, holder]
      · refine ⟨fun holds => ⟨holds, ?_⟩, fun holds => holds.1⟩
        intro lease same
        cases same
      · intro lease same
        cases same
  | giveBack state lease before after drawn =>
      obtain ⟨row, locked, holder, top⟩ := stacked.row
      by_cases own : row.token = lease.token
      · obtain ⟨rest, previous, rfl, replaced, given, lower⟩ := stacked.giveBackTop locked own
        refine ⟨rest, lower, ?_, ?_⟩
        · constructor
          · intro covers
            refine ⟨?_, ?_⟩
            · intro carried member
              rcases List.mem_cons.mp member with rfl | member
              · exact .inr ⟨lease, by simp, rfl⟩
              · rcases covers carried member with bottom | ⟨lent, inside, same⟩
                · exact .inl bottom
                · refine .inr ⟨lent, ?_, same⟩
                  rcases List.mem_append.mp inside with inside | inside
                  · exact List.mem_append_left _ inside
                  · exact List.mem_append_right _ (List.mem_cons_of_mem _ inside)
            · intro lent same
              cases same
              exact ⟨row, locked, own⟩
          · rintro ⟨covers, -⟩ carried member
            rcases covers carried (List.mem_cons_of_mem _ member) with bottom | ⟨lent, inside, same⟩
            · exact .inl bottom
            · refine .inr ⟨lent, ?_, same⟩
              have other : lent ≠ lease := by
                rintro rfl
                rw [← same] at member
                exact (List.nodup_cons.mp stacked.distinct).1 member
              simpa [other] using inside
        · intro lent same
          cases same
          refine ⟨by rw [given]; rfl, ?_⟩
          rintro ⟨other, inside, apart, held, rowLocked, token⟩
          obtain rfl : row = held := Option.some.inj (locked.symm.trans rowLocked)
          have kept : other ∈ before ++ after := by simpa [apart] using inside
          exact absurd (token.symm.trans own) (distinct_token stacked.apart kept)
      · obtain ⟨unchanged, below, uncovered⟩ := stacked.giveBackBelow locked own
        refine ⟨stack, by rw [unchanged]; exact below, ?_, ?_⟩
        · rw [unchanged]
          refine ⟨fun covers => absurd covers uncovered, ?_⟩
          rintro ⟨-, inTurn⟩
          obtain ⟨held, rowLocked, token⟩ := inTurn lease rfl
          obtain rfl : row = held := Option.some.inj (locked.symm.trans rowLocked)
          exact absurd token own
        · intro lent same
          cases same
          rw [unchanged]
          exact ⟨by rw [locked]; rfl, fun _ => rfl⟩

theorem LendingRun.stacked {start : Lending} {events : List LendingEvent}
    (run : LendingRun instanceId start events world) (held : start.HeldBy instanceId token) :
    ∃ stack, world.Stacked instanceId token stack ∧
      (world.Covers token stack ↔ ∀ event ∈ events, event.InTurn) ∧
      ∀ event ∈ events, event.Spares := by
  induction run with
  | start => exact ⟨[token], held.stacked.1, by simp [held.stacked.2], by simp⟩
  | step run lends induction =>
      obtain ⟨stack, stacked, covers, spares⟩ := induction
      obtain ⟨after, upper, step, spared⟩ := lends.stacked stacked
      refine ⟨after, upper, ?_, ?_⟩
      · rw [step, covers, List.forall_mem_cons, and_comm]
      · rw [List.forall_mem_cons]
        exact ⟨spared, spares⟩

end Stacks

/-- Once every lease is given back the row carries the daemon's token exactly when
each was given back while its own claim held the row; no lease given back deletes
the row or changes another claim's. -/
theorem LendingRun.returned_iff {instanceId token : String} {start world : Lending}
    {events : List LendingEvent} (run : LendingRun instanceId start events world)
    (held : start.HeldBy instanceId token) (returned : world.lent = []) :
    ((∃ row, world.state.lock = some row ∧ row.holder = instanceId ∧ row.token = token) ↔
      ∀ event ∈ events, event.InTurn) ∧ ∀ event ∈ events, event.Spares := by
  obtain ⟨stack, stacked, covers, spares⟩ := run.stacked held
  refine ⟨?_, spares⟩
  rw [← covers]
  obtain ⟨row, locked, holder, top⟩ := stacked.row
  obtain ⟨above, bottom⟩ := stacked.bottom
  have distinct := stacked.distinct
  subst bottom
  constructor
  · rintro ⟨other, same, -, carries⟩
    obtain rfl : row = other := Option.some.inj (locked.symm.trans same)
    cases above with
    | nil => exact fun carried member => .inl (List.mem_singleton.mp member)
    | cons first above =>
        obtain rfl : first = row.token := Option.some.inj top
        rw [carries] at distinct
        exact absurd distinct (by simp)
  · intro covered
    cases above with
    | nil => exact ⟨row, locked, holder, (Option.some.inj top).symm⟩
    | cons first above =>
        rcases covered first List.mem_cons_self with same | ⟨lease, member, -⟩
        · rw [same] at distinct
          exact absurd distinct (by simp)
        · rw [returned] at member
          cases member

namespace Commands

/-- The daemon holds the lock since its claim of `"T"`. -/
def daemon : Lending where
  state := ⟨⟨∅, ∅, ∅, ∅⟩, some ⟨"m", "m", "T", 1⟩, none, none⟩
  lent := []
  drawn := ["T"]

theorem daemon_heldBy : daemon.HeldBy "m" "T" :=
  ⟨⟨_, rfl, rfl, rfl⟩, rfl, List.mem_singleton_self _⟩

def claim (token : String) : Claim := ⟨"m", "command", 2, 0, false, token⟩

def first : HostLease := ⟨"A", some "T"⟩

def second : HostLease := ⟨"B", some "A"⟩

def borrowed : Lending := ⟨daemon.state.claimAndMark (claim "A"), [first], ["A", "T"]⟩

def overlapped : Lending :=
  ⟨borrowed.state.claimAndMark (claim "B"), [second, first], ["B", "A", "T"]⟩

theorem daemon_lends : Lends "m" daemon (.claimed (claim "A")) borrowed :=
  .claim rfl (by decide) (fun _ _ => Nat.zero_le _) rfl

theorem borrowed_lends : Lends "m" borrowed (.claimed (claim "B")) overlapped :=
  .claim rfl (by decide) (fun _ _ => Nat.zero_le _) rfl

/-- The inner command is done, and the outer one is not. -/
def nested : Lending :=
  ⟨overlapped.state.giveBack "m" second, [first], ["B", "A", "T"]⟩

def returned : Lending := ⟨nested.state.giveBack "m" first, [], ["B", "A", "T"]⟩

/-- Two commands, the second one claimed and given back within the first, the
newest event first. -/
def events : List LendingEvent :=
  [⟨nested, .gaveBack first, returned.state.lock⟩,
    ⟨overlapped, .gaveBack second, nested.state.lock⟩,
    ⟨borrowed, .claimed (claim "B"), overlapped.state.lock⟩,
    ⟨daemon, .claimed (claim "A"), borrowed.state.lock⟩]

theorem run : LendingRun "m" daemon events returned :=
  .step (.step (.step (.step (.start _) daemon_lends) borrowed_lends)
    (Lends.giveBack overlapped.state second [] [first] _))
    (Lends.giveBack nested.state first [] [] _)

end Commands

theorem LendingRun.returned_iff_two_commands :
    (∃ row, Commands.returned.state.lock = some row ∧ row.holder = "m" ∧ row.token = "T") ∧
      ∀ event ∈ Commands.events, event.Spares := by
  have both := LendingRun.returned_iff Commands.run Commands.daemon_heldBy rfl
  refine ⟨both.1.mpr fun event member => ?_, both.2⟩
  simp only [Commands.events, List.mem_cons, List.not_mem_nil, or_false] at member
  rcases member with rfl | rfl | rfl | rfl
  · rintro _ ⟨⟩
    exact ⟨⟨"m", "command", "A", 2⟩, by decide, rfl⟩
  · rintro _ ⟨⟩
    exact ⟨⟨"m", "command", "B", 2⟩, by decide, rfl⟩
  · rintro _ ⟨⟩
  · rintro _ ⟨⟩

/-- Two commands overlap and the earlier one gives back first: the row ends at its
token, which no holder has. -/
theorem overlapping_commands_lose_daemon_token :
    ∃ (world : Lending) (events : List LendingEvent),
      LendingRun "m" Commands.daemon events world ∧ Commands.daemon.HeldBy "m" "T" ∧
      world.lent = [] ∧ (∃ row, world.state.lock = some row ∧ row.token = "A") ∧
      ¬ ∃ row, world.state.lock = some row ∧ row.holder = "m" ∧ row.token = "T" := by
  have early : Lends "m" Commands.overlapped (.gaveBack Commands.first)
      ⟨Commands.overlapped.state.giveBack "m" Commands.first, [Commands.second],
        ["B", "A", "T"]⟩ :=
    Lends.giveBack Commands.overlapped.state Commands.first [Commands.second] [] _
  have late : Lends "m" ⟨Commands.overlapped.state.giveBack "m" Commands.first,
      [Commands.second], ["B", "A", "T"]⟩ (.gaveBack Commands.second)
      ⟨(Commands.overlapped.state.giveBack "m" Commands.first).giveBack "m" Commands.second, [],
        ["B", "A", "T"]⟩ :=
    Lends.giveBack _ Commands.second [] [] _
  have ends : ((Commands.overlapped.state.giveBack "m" Commands.first).giveBack "m"
      Commands.second).lock = some ⟨"m", "command", "A", 2⟩ := by decide
  refine ⟨_, _, .step (.step (.step (.step (.start _) Commands.daemon_lends)
    Commands.borrowed_lends) early) late, Commands.daemon_heldBy, rfl, ⟨_, ends, rfl⟩, ?_⟩
  rintro ⟨row, locked, -, token⟩
  rw [ends] at locked
  obtain rfl := Option.some.inj locked
  exact absurd token (by decide)

end Crystalline.Sync
