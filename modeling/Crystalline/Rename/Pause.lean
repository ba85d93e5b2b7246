import Mathlib.Data.List.AList
import Mathlib.Order.Basic

/-!
# The pause of a rename

A rename pauses a domain and then waits for the writes already running in it.
A write is counted before it looks at the pause, so a rename that pauses in
between sees the write in its count or the write sees the pause.
-/

namespace Crystalline.Rename

variable {Name : Type*} [DecidableEq Name]

/-- `RenamePause`: the domains a rename has paused, and the writes still running
in each.  Each table has its own lock. -/
structure RenamePause (Name : Type*) where
  paused : List Name
  writers : AList fun _ : Name => Nat

namespace RenamePause

def default : RenamePause Name := ⟨[], ∅⟩

/-- `is_paused`. -/
def isPaused (pause : RenamePause Name) (name : Name) : Bool := pause.paused.contains name

/-- `pause`. -/
def pauseAll (pause : RenamePause Name) (names : List Name) : RenamePause Name :=
  { pause with paused := names ++ pause.paused }

/-- `resume`. -/
def resumeAll (pause : RenamePause Name) (names : List Name) : RenamePause Name :=
  { pause with paused := pause.paused.filter fun name => !names.contains name }

/-- How many writes into a domain are counted. -/
def count (pause : RenamePause Name) (name : Name) : Nat := (pause.writers.lookup name).getD 0

/-- The first step of `try_enter`. -/
def enter (pause : RenamePause Name) (name : Name) : RenamePause Name :=
  { pause with writers := pause.writers.insert name (pause.count name + 1) }

/-- `WriteTicket::drop`. -/
def dropTicket (pause : RenamePause Name) (name : Name) : RenamePause Name :=
  match pause.writers.lookup name with
  | none => pause
  | some count =>
      if count - 1 = 0 then { pause with writers := pause.writers.erase name }
      else { pause with writers := pause.writers.insert name (count - 1) }

/-- One look of `drained`. -/
def drained (pause : RenamePause Name) (name : Name) : Bool :=
  (pause.writers.lookup name).isNone

end RenamePause

/-- Where a write stands: counted and about to look at the pause, refused and
about to take its count back, or running on its ticket. -/
inductive Stage where
  | counted
  | refused
  | granted
  deriving DecidableEq, Repr

structure Flight (Name : Type*) where
  name : Name
  stage : Stage
  deriving DecidableEq

structure World (Name : Type*) where
  pause : RenamePause Name
  flights : List (Flight Name)

def World.fresh : World Name := ⟨.default, []⟩

inductive Action (Name : Type*) where
  | counted (name : Name)
  | looked (name : Name) (granted : Bool)
  | dropped (name : Name)
  | paused (names : List Name)
  | resumed (names : List Name)
  | drained (name : Name) (answer : Bool)
  deriving DecidableEq

/-- One acquisition of a lock. -/
inductive Step : World Name → Action Name → World Name → Prop where
  | enter (name : Name) (world : World Name) :
      Step world (.counted name)
        ⟨world.pause.enter name, ⟨name, .counted⟩ :: world.flights⟩
  | look (name : Name) (pause : RenamePause Name) (before after : List (Flight Name)) :
      Step ⟨pause, before ++ ⟨name, .counted⟩ :: after⟩ (.looked name (!pause.isPaused name))
        ⟨pause, before ++
          ⟨name, if pause.isPaused name then .refused else .granted⟩ :: after⟩
  | drop (name : Name) (stage : Stage) (pause : RenamePause Name)
      (before after : List (Flight Name)) :
      stage ≠ .counted →
      Step ⟨pause, before ++ ⟨name, stage⟩ :: after⟩ (.dropped name)
        ⟨pause.dropTicket name, before ++ after⟩
  | pause (names : List Name) (world : World Name) :
      Step world (.paused names) { world with pause := world.pause.pauseAll names }
  | resume (names : List Name) (world : World Name) :
      Step world (.resumed names) { world with pause := world.pause.resumeAll names }
  | drained (name : Name) (world : World Name) :
      Step world (.drained name (world.pause.drained name)) world

/-- Any interleaving of writers and renames, the last action first. -/
inductive Run : List (Action Name) → World Name → Prop where
  | start : Run [] World.fresh
  | step {past : List (Action Name)} {world next : World Name} {action : Action Name} :
      Run past world → Step world action next → Run (action :: past) next

/-- The writes into a domain that hold its count. -/
def running (flights : List (Flight Name)) (name : Name) : Nat :=
  flights.countP fun flight => flight.name = name

variable {world next : World Name} {pause : RenamePause Name} {action : Action Name}
  {past : List (Action Name)} {name other : Name}

@[simp] theorem running_cons (flight : Flight Name) (flights : List (Flight Name)) :
    running (flight :: flights) name =
      running flights name + if flight.name = name then 1 else 0 := by
  unfold running
  rw [List.countP_cons]
  simp

@[simp] theorem running_append (before after : List (Flight Name)) :
    running (before ++ after) name = running before name + running after name :=
  List.countP_append

/-- The entry of a domain counts the writes that are running in it, and there is
none where nothing runs. -/
def Counts (world : World Name) : Prop :=
  ∀ name, world.pause.writers.lookup name =
    if running world.flights name = 0 then none else some (running world.flights name)

theorem count_of_counts (counts : Counts world) (name : Name) :
    world.pause.count name = running world.flights name := by
  unfold RenamePause.count
  rw [counts name]
  split
  · next idle => exact idle.symm
  · rfl

theorem lookup_enter : (pause.enter name).writers.lookup other =
    if other = name then some (pause.count name + 1) else pause.writers.lookup other := by
  unfold RenamePause.enter
  split
  · next same =>
    subst same
    exact AList.lookup_insert _
  · next apart => exact AList.lookup_insert_ne apart

theorem lookup_dropTicket {count : Nat} (counted : pause.writers.lookup name = some (count + 1)) :
    (pause.dropTicket name).writers.lookup other =
      if other = name then (if count = 0 then none else some count)
      else pause.writers.lookup other := by
  unfold RenamePause.dropTicket
  rw [counted]
  dsimp only
  rw [Nat.add_sub_cancel]
  by_cases last : count = 0
  · rw [if_pos last, if_pos last]
    split
    · next same =>
      subst same
      exact AList.lookup_erase _ _
    · next apart => exact AList.lookup_erase_ne apart
  · rw [if_neg last, if_neg last]
    split
    · next same =>
      subst same
      exact AList.lookup_insert _
    · next apart => exact AList.lookup_insert_ne apart

theorem counts_step (step : Step world action next) (counts : Counts world) : Counts next := by
  cases step with
  | enter name world =>
      intro other
      change (world.pause.enter name).writers.lookup other = _
      rw [lookup_enter, count_of_counts counts, running_cons]
      by_cases same : other = name
      · subst same
        simp
      · have apart : ¬ name = other := fun equal => same equal.symm
        simp only [if_neg same, if_neg apart, Nat.add_zero]
        exact counts other
  | look name pause before after =>
      intro other
      have same : running (before ++
          ⟨name, if pause.isPaused name then .refused else .granted⟩ :: after) other =
          running (before ++ ⟨name, .counted⟩ :: after) other := by simp
      dsimp only
      rw [same]
      exact counts other
  | drop name stage pause before after looked =>
      have here := counts name
      have held : running (before ++ ⟨name, stage⟩ :: after) name =
          running (before ++ after) name + 1 := by
        simp only [running_append, running_cons, if_true]
        omega
      dsimp only at here
      rw [held, if_neg (Nat.succ_ne_zero _)] at here
      intro other
      dsimp only
      rw [lookup_dropTicket here]
      by_cases same : other = name
      · subst same
        rw [if_pos rfl]
      · have apart : ¬ name = other := fun equal => same equal.symm
        have others := counts other
        simp only [running_append, running_cons, if_neg apart, Nat.add_zero] at others
        rw [if_neg same, running_append]
        exact others
  | pause names world => exact counts
  | resume names world => exact counts
  | drained name world => exact counts

theorem counts_run (run : Run past world) : Counts world := by
  induction run with
  | start => exact fun _ => rfl
  | step _ step counts => exact counts_step step counts

/-- The tickets granted for a domain and not dropped. -/
def tickets (flights : List (Flight Name)) (name : Name) : Nat :=
  flights.countP fun flight => flight.name = name && flight.stage = .granted

/-- The attempts on a domain that are under way: counted, or refused with the
count still to be taken back. -/
def attempts (flights : List (Flight Name)) (name : Name) : Nat :=
  flights.countP fun flight => flight.name = name && flight.stage ≠ .granted

theorem running_eq (flights : List (Flight Name)) (name : Name) :
    running flights name = tickets flights name + attempts flights name := by
  unfold running tickets attempts
  induction flights with
  | nil => rfl
  | cons flight flights induction =>
      simp only [List.countP_cons, induction]
      by_cases here : flight.name = name
      · by_cases granted : flight.stage = .granted
        · simp [here, granted]
          omega
        · simp [here, granted]
          omega
      · simp [here]

/-- Whether a domain is paused: the last pause or resume that named it was a
pause. -/
def standing (name : Name) : List (Action Name) → Bool
  | [] => false
  | .paused names :: earlier => names.contains name || standing name earlier
  | .resumed names :: earlier => !names.contains name && standing name earlier
  | .counted _ :: earlier | .looked _ _ :: earlier | .dropped _ :: earlier
  | .drained _ _ :: earlier => standing name earlier

theorem isPaused_pauseAll (names : List Name) :
    (pause.pauseAll names).isPaused name = (names.contains name || pause.isPaused name) := by
  simp [RenamePause.pauseAll, RenamePause.isPaused]

theorem isPaused_resumeAll (names : List Name) :
    (pause.resumeAll names).isPaused name = (!names.contains name && pause.isPaused name) := by
  rw [Bool.eq_iff_iff]
  simp [RenamePause.resumeAll, RenamePause.isPaused, and_comm]

theorem isPaused_dropTicket :
    (pause.dropTicket other).isPaused name = pause.isPaused name := by
  unfold RenamePause.dropTicket
  cases pause.writers.lookup other with
  | none => rfl
  | some count =>
      dsimp only
      split <;> rfl

theorem isPaused_run (run : Run past world) (name : Name) :
    world.pause.isPaused name = standing name past := by
  induction run with
  | start => rfl
  | step _ step induction =>
      cases step with
      | enter other world => exact induction
      | look other pause before after => exact induction
      | drop other stage pause before after looked => exact isPaused_dropTicket.trans induction
      | pause names world =>
          refine (isPaused_pauseAll names).trans ?_
          rw [induction]
          rfl
      | resume names world =>
          refine (isPaused_resumeAll names).trans ?_
          rw [induction]
          rfl
      | drained other world => exact induction

variable {later : List (Action Name)}

theorem standing_append (unresumed : ∀ names, .resumed names ∈ later → name ∉ names)
    (stands : standing name past = true) : standing name (later ++ past) = true := by
  induction later with
  | nil => exact stands
  | cons action later induction =>
      have rest := induction fun names member => unresumed names (List.mem_cons_of_mem _ member)
      cases action with
      | counted other => exact rest
      | looked other granted => exact rest
      | dropped other => exact rest
      | drained other answer => exact rest
      | paused names =>
          change (names.contains name || standing name (later ++ past)) = true
          rw [rest, Bool.or_true]
      | resumed names =>
          change (!names.contains name && standing name (later ++ past)) = true
          have apart := unresumed names List.mem_cons_self
          rw [rest, Bool.and_true]
          simpa using apart

theorem tickets_step (step : Step world action next) (name : Name)
    (ungranted : action ≠ .looked name true) :
    tickets next.flights name ≤ tickets world.flights name := by
  cases step with
  | enter other world => simp [tickets]
  | look other pause before after =>
      cases paused : pause.isPaused other with
      | true => simp [tickets, List.countP_append]
      | false =>
          have apart : other ≠ name := by
            rintro rfl
            exact ungranted (by rw [paused]; rfl)
          simp [tickets, List.countP_append, apart]
  | drop other stage pause before after looked =>
      simp only [tickets, List.countP_append, List.countP_cons]
      omega
  | pause names world => exact le_refl _
  | resume names world => exact le_refl _
  | drained other world => exact le_refl _

theorem looked_step {granted : Bool} (step : Step world (.looked name granted) next) :
    granted = !world.pause.isPaused name := by
  cases step
  rfl

theorem drained_step {answer : Bool} (step : Step world (.drained name answer) next) :
    answer = world.pause.drained name ∧ next = world := by
  cases step
  exact ⟨rfl, rfl⟩

theorem run_of_cons (run : Run (action :: past) next) :
    ∃ world, Run past world ∧ Step world action next := by
  cases run with
  | step before step => exact ⟨_, before, step⟩

theorem run_of_append (run : Run (later ++ past) next) : ∃ world, Run past world := by
  induction later generalizing next with
  | nil => exact ⟨next, run⟩
  | cons action later induction =>
      obtain ⟨world, before, -⟩ := run_of_cons run
      exact induction before

/-- Once a paused domain is drained no ticket is granted for it. -/
theorem drained_run (run : Run (later ++ .drained name true :: past) world)
    (stands : standing name past = true)
    (unresumed : ∀ names, .resumed names ∈ later → name ∉ names) :
    tickets world.flights name = 0 ∧ .looked name true ∉ later := by
  induction later generalizing world with
  | nil =>
      refine ⟨?_, List.not_mem_nil⟩
      obtain ⟨before, earlier, step⟩ := run_of_cons run
      have counts := counts_run earlier name
      obtain ⟨gone, rfl⟩ := drained_step step
      symm at gone
      rw [RenamePause.drained, counts] at gone
      split at gone
      · next idle =>
        rw [running_eq] at idle
        omega
      · cases gone
  | cons action later induction =>
      obtain ⟨before, earlier, step⟩ := run_of_cons run
      have free : ∀ names, .resumed names ∈ later → name ∉ names := fun names member =>
        unresumed names (List.mem_cons_of_mem _ member)
      obtain ⟨none, unlooked⟩ := induction earlier free
      have paused : before.pause.isPaused name = true := by
        rw [isPaused_run earlier]
        exact standing_append free stands
      have ungranted : action ≠ .looked name true := by
        rintro rfl
        have granted := looked_step step
        rw [paused] at granted
        cases granted
      refine ⟨Nat.le_zero.mp ((tickets_step step name ungranted).trans none.le), ?_⟩
      rintro member
      rcases List.mem_cons.mp member with same | before
      · exact ungranted same.symm
      · exact unlooked before

/-- What the pause and the counts promise after any interleaving. -/
structure Steady (past : List (Action Name)) (world : World Name) : Prop where
  counts : ∀ name,
    world.pause.count name = tickets world.flights name + attempts world.flights name
  entries : ∀ name, (world.pause.writers.lookup name).isSome ↔ 0 < world.pause.count name
  takesBack : ∀ flight ∈ world.flights, 0 < world.pause.count flight.name
  drains : ∀ later middle earlier name names,
    past = later ++ .drained name true :: (middle ++ .paused names :: earlier) → name ∈ names →
    (∀ resumed, .resumed resumed ∈ later ++ middle → name ∉ resumed) →
    tickets world.flights name = 0 ∧ .looked name true ∉ later
  admits : ∀ later earlier name granted, past = later ++ .looked name granted :: earlier →
    granted = !standing name earlier

/-- A paused and drained domain has no writer, and a pause of one domain is no
matter of another's writers. -/
theorem paused_domain_has_no_writer (run : Run past world) : Steady past world := by
  have counts := counts_run run
  constructor
  · intro name
    rw [count_of_counts counts, running_eq]
  · intro name
    rw [count_of_counts counts, counts name]
    split
    · next idle => simp [idle]
    · next busy => simpa using Nat.pos_of_ne_zero busy
  · intro flight member
    rw [count_of_counts counts]
    exact List.countP_pos_iff.mpr ⟨flight, member, by simp⟩
  · rintro later middle earlier name names rfl named unresumed
    refine drained_run run (standing_append (fun resumed member => ?_) ?_)
      fun resumed member => unresumed resumed (List.mem_append_left _ member)
    · exact unresumed resumed (List.mem_append_right _ member)
    · change (names.contains name || standing name earlier) = true
      rw [List.contains_iff_mem.mpr named, Bool.true_or]
  · rintro later earlier name granted rfl
    obtain ⟨after, looked⟩ := run_of_append run
    obtain ⟨before, run, step⟩ := run_of_cons looked
    rw [← isPaused_run run]
    exact looked_step step

namespace Refused

/-- A write into a paused domain that is refused, before its ticket is dropped. -/
def refused : World Nat := ⟨⟨[0], (∅ : AList fun _ : Nat => Nat).insert 0 1⟩, [⟨0, .refused⟩]⟩

theorem run : Run [.looked 0 false, .counted 0, .paused [0]] refused := by
  have paused : Run [.paused [0]] (⟨⟨[0], ∅⟩, []⟩ : World Nat) := .step .start (.pause [0] _)
  have counted : Run [.counted 0, .paused [0]]
      (⟨⟨[0], (∅ : AList fun _ : Nat => Nat).insert 0 1⟩, [⟨0, .counted⟩]⟩ : World Nat) :=
    .step paused (.enter 0 _)
  exact .step counted (.look 0 _ [] [])

theorem paused_domain_has_no_writer_refused :
    Steady [.looked 0 false, .counted 0, .paused [0]] refused :=
  paused_domain_has_no_writer run

/-- A refused attempt is past both its steps and still holds its count. -/
theorem refused_still_counts :
    Run [.looked 0 false, .counted 0, .paused [0]] refused ∧
      refused.pause.count 0 ≠
        tickets refused.flights 0 +
          refused.flights.countP fun flight => flight.name = 0 && flight.stage = .counted :=
  ⟨run, by decide⟩

end Refused

end Crystalline.Rename
