import Mathlib.Data.List.AList
import Mathlib.Algebra.Order.Ring.Nat

/-!
# The login throttle

A sign-in that fails is counted under the name it was sent with.  Past the free
attempts the next attempt waits a doubling number of seconds, and past the
ceiling it is refused until the name has had no failure for a whole window.
Instants and durations are nanoseconds.
-/

namespace Crystalline.Identity

/-- A second. -/
def second : Nat := 1000000000

/-- `FORGET_AFTER`. -/
def forgetAfter : Nat := 15 * 60 * second

/-- `MAX_TRACKED`. -/
def maxTracked : Nat := 100000

/-- `BASE_DELAY`. -/
def baseDelay : Nat := second

/-- The largest count, a `u32`. -/
def maxCount : Nat := 2 ^ 32 - 1

/-- `Verdict`. -/
inductive Verdict where
  | delay (nap : Nat)
  | refuse (seconds : Nat)
  deriving DecidableEq, Repr

/-- `Failures`: a run of consecutive failures, and when the last one arrived. -/
structure Failures where
  count : Nat
  last : Nat
  deriving DecidableEq, Repr

abbrev Tracked : Type := AList fun _ : String => Failures

/-- The configuration of a throttle. -/
structure LoginThrottle where
  freeAttempts : Nat
  maxDelay : Nat

/-- `checked_shl` of a `u32` one. -/
def checkedShl (steps : Nat) : Option Nat := if steps < 32 then some (2 ^ steps) else none

/-- `Duration::checked_mul`. -/
def checkedMul (duration factor : Nat) : Option Nat :=
  if duration * factor < 2 ^ 64 * second then some (duration * factor) else none

namespace LoginThrottle

/-- `delay_for`. -/
def delayFor (throttle : LoginThrottle) (count : Nat) : Option Nat :=
  if count < throttle.freeAttempts then some 0
  else
    (checkedShl (count - throttle.freeAttempts)).bind fun factor =>
      (checkedMul baseDelay factor).filter fun delay => delay ≤ throttle.maxDelay

end LoginThrottle

/-- The window of an entry has passed. -/
def Failures.forgotten (seen : Failures) (now : Nat) : Bool := forgetAfter ≤ now - seen.last

namespace Tracked

/-- The names whose window has passed, one name forgotten. -/
def forget (names : Tracked) (key : String) (now : Nat) : Tracked :=
  if (names.lookup key).any fun seen => seen.forgotten now then names.erase key else names

/-- `retain` of the sweep. -/
def sweep (names : Tracked) (now : Nat) : Tracked :=
  ⟨names.entries.filter fun entry => !entry.2.forgotten now,
    names.nodupKeys.sublist List.filter_sublist⟩

/-- An entry that `min_by_key` may name: which of the oldest it is depends on the
order of the table. -/
def Oldest (names : Tracked) (key : String) : Prop :=
  ∃ seen, names.lookup key = some seen ∧
    ∀ other entry, names.lookup other = some entry → seen.last ≤ entry.last

/-- The room `record_failure` makes in a full table, and the name it evicts. -/
inductive MakesRoom (names : Tracked) (now : Nat) : Option String → Tracked → Prop where
  | free (room : names.entries.length < maxTracked) : MakesRoom names now none names
  | swept (full : maxTracked ≤ names.entries.length)
      (room : (names.sweep now).entries.length < maxTracked) :
      MakesRoom names now none (names.sweep now)
  | evicted {oldest : String} (full : maxTracked ≤ names.entries.length)
      (still : maxTracked ≤ (names.sweep now).entries.length)
      (least : (names.sweep now).Oldest oldest) :
      MakesRoom names now (some oldest) ((names.sweep now).erase oldest)

/-- The entry `record_failure` writes. -/
def count (names : Tracked) (key : String) (now : Nat) : Tracked :=
  let seen := (names.lookup key).getD ⟨0, now⟩
  let before := if seen.forgotten now then 0 else seen.count
  names.insert key ⟨min (before + 1) maxCount, now⟩

end Tracked

namespace LoginThrottle

/-- `check`: the verdict, and the table it leaves. -/
def check (throttle : LoginThrottle) (names : Tracked) (key : String) (now : Nat) :
    Verdict × Tracked :=
  if throttle.maxDelay = 0 then (.delay 0, names)
  else
    let names := names.forget key now
    let seen := names.lookup key
    match throttle.delayFor ((seen.map Failures.count).getD 0) with
    | some nap => (.delay nap, names)
    | none =>
        let left := (seen.map fun seen => forgetAfter - (now - seen.last)).getD forgetAfter
        (.refuse (max (left / second) 1), names)

end LoginThrottle

/-- A call of the throttle. -/
inductive ThrottleCall where
  | check (key : String) (now : Nat)
  | failure (key : String) (now : Nat)
  | success (key : String)
  deriving DecidableEq, Repr

/-- A call, and the name evicted to make room for it. -/
structure ThrottleEvent where
  call : ThrottleCall
  evicted : Option String
  deriving DecidableEq, Repr

/-- One call on a table and the latest instant: instants do not decrease. -/
inductive ThrottleStep (throttle : LoginThrottle) :
    Tracked → Nat → ThrottleEvent → Tracked → Nat → Prop where
  | check {names : Tracked} {latest now : Nat} (key : String) (later : latest ≤ now) :
      ThrottleStep throttle names latest ⟨.check key now, none⟩ (throttle.check names key now).2 now
  | failure {names roomy : Tracked} {latest now : Nat} {evicted : Option String} (key : String)
      (later : latest ≤ now) (room : names.MakesRoom now evicted roomy) :
      ThrottleStep throttle names latest ⟨.failure key now, evicted⟩ (roomy.count key now) now
  | success (names : Tracked) (latest : Nat) (key : String) :
      ThrottleStep throttle names latest ⟨.success key, none⟩ (names.erase key) latest

/-- A run and its history, the newest event first. -/
inductive ThrottleRun (throttle : LoginThrottle) (start : Tracked) (began : Nat) :
    List ThrottleEvent → Tracked → Nat → Prop where
  | start : ThrottleRun throttle start began [] start began
  | step {past : List ThrottleEvent} {event : ThrottleEvent} {names next : Tracked}
      {latest now : Nat} : ThrottleRun throttle start began past names latest →
      ThrottleStep throttle names latest event next now →
      ThrottleRun throttle start began (event :: past) next now

/-- What counts for one name: its failures, and its evictions. -/
inductive Mark where
  | failed (time : Nat)
  | evicted
  deriving DecidableEq, Repr

/-- What one event means for a name since its last success.  The eviction that
makes room for a failure comes before it. -/
def ThrottleEvent.marks (event : ThrottleEvent) (key : String) : List Mark :=
  (match event.call with
    | .failure name now => if name = key then [.failed now] else []
    | .check _ _ | .success _ => []) ++
  if event.evicted = some key then [.evicted] else []

/-- The failures and evictions of a name since its last success, the newest first. -/
def marksOf (key : String) : List ThrottleEvent → List Mark
  | [] => []
  | event :: past => if event.call = .success key then [] else event.marks key ++ marksOf key past

/-- How many failures there are since the last gap of a window, up to an instant. -/
def streak (now : Nat) : List Mark → Nat
  | [] => 0
  | .failed time :: earlier => if forgetAfter ≤ now - time then 0 else streak time earlier + 1
  | .evicted :: earlier => streak now earlier

/-- The name was evicted between the failures of its streak. -/
def Interrupted (now : Nat) : List Mark → Prop
  | [] => False
  | .failed time :: earlier => now - time < forgetAfter ∧ Interrupted time earlier
  | .evicted :: earlier => 0 < streak now earlier

/-- The count that a check at an instant works with. -/
def Tracked.held (names : Tracked) (key : String) (now : Nat) : Nat :=
  (((names.lookup key).filter fun seen => !seen.forgotten now).map Failures.count).getD 0

/-- A verdict that asks for at least as much. -/
def Verdict.AtMost : Verdict → Verdict → Prop
  | .delay nap, .delay other => nap ≤ other
  | _, .refuse _ => True
  | .refuse _, .delay _ => False

namespace Tracked

variable {names roomy : Tracked} {key name : String} {now time : Nat} {evicted : Option String}
  {seen : Failures}

theorem forgotten_mono (later : time ≤ now) (gone : seen.forgotten time = true) :
    seen.forgotten now = true := by
  simp only [Failures.forgotten, decide_eq_true_eq] at gone ⊢
  omega

theorem lookup_sweep : (names.sweep now).lookup key =
    (names.lookup key).filter fun seen => !seen.forgotten now := by
  refine Option.ext fun seen => ?_
  rw [Option.filter_eq_some_iff, ← Option.mem_def, ← Option.mem_def, AList.mem_lookup_iff,
    AList.mem_lookup_iff, sweep, List.mem_filter]

theorem lookup_forget : (names.forget key now).lookup key =
    (names.lookup key).filter fun seen => !seen.forgotten now := by
  rw [forget]
  cases found : names.lookup key with
  | none => simp [found]
  | some seen => cases gone : seen.forgotten now <;> simp [gone, found, Option.filter_some]

theorem held_of_filter {kept : Tracked} (later : time ≤ now)
    (same : kept.lookup key = (names.lookup key).filter fun seen => !seen.forgotten time) :
    kept.held key now = names.held key now := by
  rw [held, held, same]
  cases names.lookup key with
  | none => rfl
  | some seen =>
      cases gone : seen.forgotten time with
      | false => simp [gone, Option.filter_some]
      | true => simp [gone, forgotten_mono later gone, Option.filter_some]

theorem held_sweep (later : time ≤ now) : (names.sweep time).held key now = names.held key now :=
  held_of_filter later lookup_sweep

theorem held_erase :
    held (names.erase name) key now = if key = name then 0 else names.held key now := by
  split
  next same => rw [held, same, AList.lookup_erase]; rfl
  next other => rw [held, held, AList.lookup_erase_ne other]

theorem held_forget (later : time ≤ now) :
    (names.forget name time).held key now = names.held key now := by
  by_cases same : key = name
  · subst same
    exact held_of_filter later lookup_forget
  · rw [forget]
    split
    · rw [held_erase, if_neg same]
    · rfl

theorem held_count : (names.count name time).held key now =
    if key = name then
      if forgetAfter ≤ now - time then 0 else min (names.held name time + 1) maxCount
    else names.held key now := by
  have before : (if ((names.lookup name).getD ⟨0, time⟩).forgotten time then 0
      else ((names.lookup name).getD ⟨0, time⟩).count) = names.held name time := by
    rw [held]
    cases names.lookup name with
    | none => simp
    | some seen => cases gone : seen.forgotten time <;> simp [gone, Option.filter_some]
  rw [count, before, held]
  split
  next same =>
    rw [same, AList.lookup_insert]
    by_cases gone : forgetAfter ≤ now - time <;> simp [Failures.forgotten, gone, Option.filter_some]
  next other => rw [AList.lookup_insert_ne other, held]

theorem MakesRoom.held (room : names.MakesRoom time evicted roomy) (later : time ≤ now) :
    roomy.held key now = if evicted = some key then 0 else names.held key now := by
  cases room with
  | free => rfl
  | swept => exact held_sweep later
  | @evicted oldest _ _ least =>
      rw [held_erase, held_sweep later]
      by_cases same : key = oldest
      · rw [if_pos same, if_pos (by rw [same])]
      · rw [if_neg same, if_neg (fun own => same (Option.some.inj own).symm)]

theorem length_keys : names.keys.length = names.entries.length := by
  rw [AList.keys, List.keys, List.length_map]

theorem length_erase_le : (names.erase name).entries.length ≤ names.entries.length := by
  rw [← length_keys, ← length_keys, AList.keys_erase]
  exact List.length_erase_le

theorem length_forget_le : (names.forget name now).entries.length ≤ names.entries.length := by
  rw [forget]
  split
  · exact length_erase_le
  · exact le_rfl

theorem length_count_le :
    (names.count name now).entries.length ≤ names.entries.length + 1 := by
  rw [count, ← length_keys, ← length_keys, AList.keys_insert, List.length_cons]
  exact Nat.add_le_add_right List.length_erase_le 1

theorem MakesRoom.length_lt (room : names.MakesRoom now evicted roomy)
    (bounded : names.entries.length ≤ maxTracked) : roomy.entries.length < maxTracked := by
  cases room with
  | free room => exact room
  | swept _ room => exact room
  | evicted _ _ least =>
      obtain ⟨seen, found, -⟩ := least
      have listed := AList.mem_keys.mp (AList.lookup_isSome.mp (by rw [found]; rfl))
      have swept : (names.sweep now).keys.length ≤ maxTracked := by
        rw [length_keys]
        exact (List.length_filter_le _ _).trans bounded
      rw [← length_keys, AList.keys_erase, List.length_erase_of_mem listed]
      have : 0 < (names.sweep now).keys.length := List.length_pos_of_mem listed
      omega

theorem MakesRoom.lookup (room : names.MakesRoom now evicted roomy)
    (found : roomy.lookup key = some seen) : names.lookup key = some seen := by
  have unswept (kept : (names.sweep now).lookup key = some seen) :
      names.lookup key = some seen := by
    rw [lookup_sweep] at kept
    exact (Option.filter_eq_some_iff.mp kept).1
  cases room with
  | free => exact found
  | swept => exact unswept found
  | @evicted oldest =>
      by_cases same : key = oldest
      · rw [same, AList.lookup_erase] at found
        cases found
      · rw [AList.lookup_erase_ne same] at found
        exact unswept found

theorem lookup_of_forget (found : (names.forget name now).lookup key = some seen) :
    names.lookup key = some seen := by
  rw [forget] at found
  split at found
  · by_cases same : key = name
    · rw [same, AList.lookup_erase] at found
      cases found
    · rwa [AList.lookup_erase_ne same] at found
  · exact found

end Tracked

namespace LoginThrottle

variable {throttle : LoginThrottle} {names : Tracked} {key : String} {now : Nat}

theorem check_snd : (throttle.check names key now).2 =
    if throttle.maxDelay = 0 then names else names.forget key now := by
  rw [check]
  split
  · rfl
  · dsimp only
    split <;> rfl

theorem check_fst (limited : throttle.maxDelay ≠ 0) : (throttle.check names key now).1 =
    match throttle.delayFor (names.held key now) with
    | some nap => .delay nap
    | none => .refuse (max ((((names.forget key now).lookup key).map fun seen =>
        forgetAfter - (now - seen.last)).getD forgetAfter / second) 1) := by
  have counted : ((((names.forget key now).lookup key).map Failures.count).getD 0) =
      names.held key now := by
    rw [Tracked.held, Tracked.lookup_forget]
  rw [check, if_neg limited]
  dsimp only
  rw [counted]
  split <;> rfl

end LoginThrottle

/-- What the table holds after a history. -/
structure Tracked.Counts (names : Tracked) (events : List ThrottleEvent) (latest : Nat) : Prop where
  bounded : names.entries.length ≤ maxTracked
  seen : ∀ key seen, names.lookup key = some seen → seen.last ≤ latest
  atMost : ∀ key now, latest ≤ now → names.held key now ≤ streak now (marksOf key events)
  exact : ∀ key now, latest ≤ now → ¬ Interrupted now (marksOf key events) →
    names.held key now = min (streak now (marksOf key events)) maxCount

section Counts

variable {throttle : LoginThrottle} {names next : Tracked} {past events : List ThrottleEvent}
  {event : ThrottleEvent} {latest now began : Nat} {key : String} {name : String}
  {evicted : Option String}

theorem marksOf_failure :
    marksOf key (⟨.failure name now, evicted⟩ :: past) =
      (if name = key then [.failed now] else []) ++
        ((if evicted = some key then [.evicted] else []) ++ marksOf key past) := by
  rw [marksOf, if_neg (fun same => by cases same), ThrottleEvent.marks, List.append_assoc]

theorem marksOf_check : marksOf key (⟨.check name now, none⟩ :: past) = marksOf key past := by
  simp [marksOf, ThrottleEvent.marks]

theorem marksOf_success :
    marksOf key (⟨.success name, none⟩ :: past) =
      if key = name then [] else marksOf key past := by
  by_cases same : key = name
  · rw [if_pos same, marksOf, if_pos (by rw [same])]
  · have apart : ThrottleCall.success name ≠ .success key := fun own =>
      same (ThrottleCall.success.inj own).symm
    rw [if_neg same, marksOf, if_neg apart]
    simp [ThrottleEvent.marks]

theorem Tracked.Counts.empty (began : Nat) : Tracked.Counts ∅ [] began :=
  ⟨Nat.zero_le _, fun _ _ found => by simp at found, fun _ _ _ => Nat.le_refl 0, fun _ _ _ _ => rfl⟩

theorem Tracked.Counts.quiet (counts : names.Counts past latest) (later : latest ≤ now)
    (quiet : ∀ key, marksOf key (event :: past) = marksOf key past)
    (length : next.entries.length ≤ names.entries.length)
    (kept : ∀ key seen, next.lookup key = some seen → names.lookup key = some seen)
    (held : ∀ key time, now ≤ time → next.held key time = names.held key time) :
    next.Counts (event :: past) now := by
  refine ⟨length.trans counts.bounded, ?_, ?_, ?_⟩
  · intro key seen found
    exact (counts.seen key seen (kept key seen found)).trans later
  · intro key time after
    rw [quiet, held key time after]
    exact counts.atMost key time (later.trans after)
  · intro key time after spared
    rw [quiet] at spared ⊢
    rw [held key time after]
    exact counts.exact key time (later.trans after) spared

section

variable {roomy : Tracked} (counts : names.Counts past latest) (later : latest ≤ now)
  (room : names.MakesRoom now evicted roomy)
include counts later room

theorem Tracked.Counts.evict (key : String) {time : Nat} (after : now ≤ time) :
    roomy.held key time ≤
        streak time ((if evicted = some key then [.evicted] else []) ++ marksOf key past) ∧
      (¬ Interrupted time ((if evicted = some key then [.evicted] else []) ++ marksOf key past) →
        roomy.held key time = min (streak time
          ((if evicted = some key then [.evicted] else []) ++ marksOf key past)) maxCount) := by
  rw [room.held after]
  split
  next =>
    refine ⟨Nat.zero_le _, fun spared => ?_⟩
    have none : streak time (marksOf key past) = 0 := Nat.eq_zero_of_not_pos spared
    rw [List.singleton_append, streak, none]
    exact (Nat.zero_min _).symm
  next =>
    exact ⟨counts.atMost key time (later.trans after),
      counts.exact key time (later.trans after)⟩

theorem Tracked.Counts.failure (name : String) :
    (roomy.count name now).Counts (⟨.failure name now, evicted⟩ :: past) now := by
  refine ⟨Tracked.length_count_le.trans (room.length_lt counts.bounded), ?_, ?_, ?_⟩
  · intro key seen found
    rw [Tracked.count] at found
    by_cases same : key = name
    · rw [same, AList.lookup_insert] at found
      rw [← Option.some.inj found]
    · rw [AList.lookup_insert_ne same] at found
      exact (counts.seen key seen (room.lookup found)).trans later
  · intro key time after
    obtain ⟨before, -⟩ := counts.evict later room key after
    obtain ⟨counted, -⟩ := counts.evict later room key (Nat.le_refl now)
    rw [Tracked.held_count, marksOf_failure]
    by_cases same : key = name
    · subst same
      rw [if_pos rfl, if_pos rfl, List.singleton_append, streak]
      split
      · exact Nat.le_refl 0
      · omega
    · rw [if_neg same, if_neg (Ne.symm same), List.nil_append]
      exact before
  · intro key time after spared
    obtain ⟨-, before⟩ := counts.evict later room key after
    obtain ⟨-, counted⟩ := counts.evict later room key (Nat.le_refl now)
    rw [marksOf_failure] at spared ⊢
    rw [Tracked.held_count]
    by_cases same : key = name
    · subst same
      rw [if_pos rfl, List.singleton_append] at spared
      rw [if_pos rfl, if_pos rfl, List.singleton_append, streak]
      split
      next => exact (Nat.zero_min _).symm
      next within =>
        rw [counted fun interrupted => spared ⟨by omega, interrupted⟩]
        omega
    · rw [if_neg (Ne.symm same), List.nil_append] at spared ⊢
      rw [if_neg same]
      exact before spared

end

/-- What one call does to the counts. -/
theorem ThrottleStep.counts (step : ThrottleStep throttle names latest event next now)
    (counts : names.Counts past latest) : next.Counts (event :: past) now := by
  cases step with
  | check key later =>
      rw [LoginThrottle.check_snd]
      split
      · exact counts.quiet later (fun _ => marksOf_check) (Nat.le_refl _)
          (fun _ _ found => found) fun _ _ _ => rfl
      · exact counts.quiet later (fun _ => marksOf_check) Tracked.length_forget_le
          (fun _ _ found => Tracked.lookup_of_forget found) fun _ _ after =>
          Tracked.held_forget after
  | failure key later room => exact counts.failure later room key
  | success _ name =>
      refine ⟨Tracked.length_erase_le.trans counts.bounded, ?_, ?_, ?_⟩
      · intro key seen found
        by_cases same : key = name
        · rw [same, AList.lookup_erase] at found
          cases found
        · rw [AList.lookup_erase_ne same] at found
          exact counts.seen key seen found
      · intro key time after
        rw [Tracked.held_erase, marksOf_success]
        split
        · exact Nat.zero_le _
        · exact counts.atMost key time after
      · intro key time after spared
        rw [marksOf_success] at spared ⊢
        rw [Tracked.held_erase]
        split
        next => exact (Nat.zero_min _).symm
        next other =>
          rw [if_neg other] at spared
          exact counts.exact key time after spared

theorem ThrottleRun.counts (run : ThrottleRun throttle ∅ began events names latest) :
    names.Counts events latest := by
  induction run with
  | start => exact .empty began
  | step _ step counts => exact step.counts counts

section

variable (step : ThrottleStep throttle names latest event next now)
include step

theorem ThrottleStep.held_le (spared : ∀ time, event.call ≠ .failure key time) {time : Nat}
    (after : now ≤ time) : next.held key time ≤ names.held key time := by
  cases step with
  | check name later =>
      rw [LoginThrottle.check_snd]
      split
      · exact Nat.le_refl _
      · exact Nat.le_of_eq (Tracked.held_forget after)
  | failure name later room =>
      have other : key ≠ name := by
        rintro rfl
        exact spared _ rfl
      rw [Tracked.held_count, if_neg other, room.held after]
      split
      · exact Nat.zero_le _
      · exact Nat.le_refl _
  | success _ name =>
      rw [Tracked.held_erase]
      split
      · exact Nat.zero_le _
      · exact Nat.le_refl _

theorem ThrottleStep.latest_le : latest ≤ now := by
  cases step with
  | check _ later => exact later
  | failure _ later => exact later
  | success => exact Nat.le_refl _

end

theorem ThrottleRun.held_le (run : ThrottleRun throttle names began events next now)
    (spared : ∀ event ∈ events, ∀ time, event.call ≠ .failure key time) {time : Nat}
    (after : now ≤ time) : next.held key time ≤ names.held key time := by
  induction run with
  | start => exact Nat.le_refl _
  | step _ step held =>
      rw [List.forall_mem_cons] at spared
      exact (step.held_le spared.1 after).trans (held spared.2 (step.latest_le.trans after))

end Counts

section Schedule

variable {throttle : LoginThrottle} {names other : Tracked} {key name : String}
  {now later count more seconds : Nat}

theorem LoginThrottle.delayFor_free (free : count < throttle.freeAttempts) :
    throttle.delayFor count = some 0 := if_pos free

theorem LoginThrottle.delayFor_eq_some (paid : throttle.freeAttempts ≤ count) {nap : Nat} :
    throttle.delayFor count = some nap ↔ count - throttle.freeAttempts < 32 ∧
      nap = second * 2 ^ (count - throttle.freeAttempts) ∧ nap ≤ throttle.maxDelay := by
  rw [delayFor, if_neg (by omega), checkedShl]
  split
  next small =>
    have fits : baseDelay * 2 ^ (count - throttle.freeAttempts) < 2 ^ 64 * second := by
      have : 2 ^ (count - throttle.freeAttempts) < 2 ^ 64 :=
        Nat.pow_lt_pow_right (by omega) (by omega)
      rw [baseDelay, second]
      omega
    rw [Option.bind_some, checkedMul, if_pos fits, Option.filter_eq_some_iff]
    simp only [Option.some.injEq, decide_eq_true_eq, small, true_and, baseDelay]
    exact and_congr_left fun _ => eq_comm
  next large => simp [large]

theorem LoginThrottle.delayFor_mono (atMost : count ≤ more) {nap : Nat}
    (naps : throttle.delayFor more = some nap) :
    ∃ less, throttle.delayFor count = some less ∧ less ≤ nap := by
  by_cases free : count < throttle.freeAttempts
  · exact ⟨0, delayFor_free free, Nat.zero_le _⟩
  · obtain ⟨small, rfl, allowed⟩ := (delayFor_eq_some (by omega)).mp naps
    have smaller : second * 2 ^ (count - throttle.freeAttempts) ≤
        second * 2 ^ (more - throttle.freeAttempts) :=
      Nat.mul_le_mul_left _ (Nat.pow_le_pow_right (by omega) (by omega))
    exact ⟨_, (delayFor_eq_some (by omega)).mpr ⟨by omega, rfl, smaller.trans allowed⟩, smaller⟩

theorem LoginThrottle.delayFor_zero (limited : throttle.maxDelay ≠ 0)
    (whole : second ∣ throttle.maxDelay) : ∃ nap, throttle.delayFor 0 = some nap := by
  by_cases free : 0 < throttle.freeAttempts
  · exact ⟨0, delayFor_free free⟩
  · have reaches : second ≤ throttle.maxDelay :=
      Nat.le_of_dvd (Nat.pos_of_ne_zero limited) whole
    refine ⟨second, (delayFor_eq_some (by omega)).mpr ⟨by omega, ?_, reaches⟩⟩
    rw [Nat.zero_sub, Nat.pow_zero, Nat.mul_one]

theorem LoginThrottle.check_atMost (held : names.held key now ≤ other.held name later) :
    (throttle.check names key now).1.AtMost (throttle.check other name later).1 := by
  by_cases off : throttle.maxDelay = 0
  · simp [check, off, Verdict.AtMost]
  · rw [check_fst off, check_fst off]
    cases naps : throttle.delayFor (other.held name later) with
    | none => simp [Verdict.AtMost]
    | some nap =>
        obtain ⟨less, allowed, atMost⟩ := delayFor_mono held naps
        rw [allowed]
        exact atMost

/-- What a refusal says of the entry: it is not forgotten, and its wait is rounded
down. -/
theorem LoginThrottle.of_check_refuse (whole : second ∣ throttle.maxDelay)
    (refused : (throttle.check names key now).1 = .refuse seconds) :
    throttle.maxDelay ≠ 0 ∧ ∃ seen, names.lookup key = some seen ∧ now - seen.last < forgetAfter ∧
      seconds = max ((forgetAfter - (now - seen.last)) / second) 1 := by
  have limited : throttle.maxDelay ≠ 0 := by
    intro off
    simp [check, off] at refused
  refine ⟨limited, ?_⟩
  rw [check_fst limited] at refused
  split at refused
  · cases refused
  next none =>
    rw [Tracked.lookup_forget] at refused
    cases found : names.lookup key with
    | none =>
        obtain ⟨nap, naps⟩ := delayFor_zero limited whole
        rw [Tracked.held, found] at none
        exact absurd (none.symm.trans naps) (by simp)
    | some seen =>
        by_cases gone : seen.forgotten now = true
        · obtain ⟨nap, naps⟩ := delayFor_zero limited whole
          rw [Tracked.held, found, Option.filter_some, gone] at none
          exact absurd (none.symm.trans naps) (by simp)
        · rw [found, Option.filter_some, Bool.eq_false_iff.mpr gone] at refused
          refine ⟨seen, rfl, ?_, (Verdict.refuse.inj refused).symm⟩
          simpa [Failures.forgotten] using gone

end Schedule

/-- What the throttle promises of one name at one instant, after a history. -/
structure ThrottleHonest (throttle : LoginThrottle) (events : List ThrottleEvent)
    (names : Tracked) (key : String) (now : Nat) : Prop where
  bounded : names.entries.length ≤ maxTracked
  atMost : names.held key now ≤ streak now (marksOf key events)
  exact : ¬ Interrupted now (marksOf key events) →
    names.held key now = streak now (marksOf key events)
  free : names.held key now < throttle.freeAttempts → (throttle.check names key now).1 = .delay 0
  grows : ∀ (other : Tracked) (name : String) (later : Nat),
    names.held key now ≤ other.held name later →
    (throttle.check names key now).1.AtMost (throttle.check other name later).1
  off : throttle.maxDelay = 0 → (throttle.check names key now).1 = .delay 0
  /-- A refused name comes back after the seconds named. -/
  retry : ∀ seconds, (throttle.check names key now).1 = .refuse seconds →
    ∀ since after last later,
      ThrottleRun throttle (throttle.check names key now).2 now since after last →
      (∀ event ∈ since, ∀ time, event.call ≠ .failure key time) → last ≤ later →
      now + seconds * second ≤ later → ∃ nap, (throttle.check after key later).1 = .delay nap

/-- What is left of the window is a whole number of seconds, or less than one. -/
def Failures.Prompt (seen : Failures) (now : Nat) : Prop :=
  second ∣ now - seen.last ∨ forgetAfter < now - seen.last + second

/-- The entry of a name past the ceiling is read at a prompt instant. -/
def Tracked.Prompt (names : Tracked) (throttle : LoginThrottle) (key : String) (now : Nat) : Prop :=
  ∀ seen, names.lookup key = some seen → seen.forgotten now = false →
    throttle.maxDelay ≠ 0 → throttle.delayFor seen.count = none → seen.Prompt now

section Retry

variable {throttle : LoginThrottle} {events : List ThrottleEvent} {names : Tracked}
  {key : String} {began latest now seconds : Nat} {seen : Failures}

/-- The seconds a refusal names reach the end of the window exactly at a prompt
instant. -/
theorem Failures.prompt_iff (within : now - seen.last < forgetAfter)
    (named : seconds = max ((forgetAfter - (now - seen.last)) / second) 1) :
    seen.Prompt now ↔ forgetAfter ≤ now - seen.last + seconds * second := by
  have rounded := Nat.div_add_mod (forgetAfter - (now - seen.last)) second
  have small : (forgetAfter - (now - seen.last)) % second < second := Nat.mod_lt _ (by decide)
  have whole : second ∣ now - seen.last ↔ (forgetAfter - (now - seen.last)) % second = 0 := by
    rw [← Nat.dvd_iff_mod_eq_zero]
    exact (Nat.dvd_sub_iff_right within.le (Dvd.intro_left _ rfl)).symm
  rw [Failures.Prompt, whole]
  by_cases short : forgetAfter - (now - seen.last) < second
  · rw [Nat.div_eq_of_lt short] at named
    subst named
    have one : max 0 1 * second = second := by decide
    rw [one]
    omega
  · have reaches : 0 < (forgetAfter - (now - seen.last)) / second :=
      Nat.div_pos (by omega) (by decide)
    have named : seconds * second =
        second * ((forgetAfter - (now - seen.last)) / second) := by
      rw [named, Nat.max_eq_left reaches, Nat.mul_comm]
    omega

theorem Tracked.held_of_lookup (found : names.lookup key = some seen)
    (within : seen.forgotten now = false) : names.held key now = seen.count := by
  rw [held, found, Option.filter_some, within]
  rfl

theorem Tracked.held_of_forgotten (found : names.lookup key = some seen)
    (gone : seen.forgotten now = true) : names.held key now = 0 := by
  rw [held, found, Option.filter_some, gone]
  rfl

/-- What is held after a check, at a later instant. -/
theorem LoginThrottle.held_check (limited : throttle.maxDelay ≠ 0) {later : Nat}
    (after : now ≤ later) :
    (throttle.check names key now).2.held key later = names.held key later := by
  rw [check_snd, if_neg limited, Tracked.held_forget after]

theorem LoginThrottle.refused_of_lookup (limited : throttle.maxDelay ≠ 0)
    (found : names.lookup key = some seen) (within : seen.forgotten now = false)
    (past : throttle.delayFor seen.count = none) :
    ∃ seconds, (throttle.check names key now).1 = .refuse seconds := by
  rw [check_fst limited, Tracked.held_of_lookup found within, past]
  exact ⟨_, rfl⟩

/-- At a prompt instant a refusal keeps its word. -/
theorem LoginThrottle.retry_of_prompt (whole : second ∣ throttle.maxDelay)
    (prompt : names.Prompt throttle key now)
    (before : ∀ seen, names.lookup key = some seen → seen.last ≤ now)
    (refused : (throttle.check names key now).1 = .refuse seconds)
    {since : List ThrottleEvent} {after : Tracked} {last later : Nat}
    (run : ThrottleRun throttle (throttle.check names key now).2 now since after last)
    (spared : ∀ event ∈ since, ∀ time, event.call ≠ .failure key time) (passed : last ≤ later)
    (comes : now + seconds * second ≤ later) :
    ∃ nap, (throttle.check after key later).1 = .delay nap := by
  obtain ⟨limited, seen, found, within, named⟩ := of_check_refuse whole refused
  have present : seen.forgotten now = false := by
    simp only [Failures.forgotten, decide_eq_false_iff_not]
    omega
  have spent : throttle.delayFor seen.count = none := by
    rw [check_fst limited, Tracked.held_of_lookup found present] at refused
    cases naps : throttle.delayFor seen.count with
    | none => rfl
    | some nap => rw [naps] at refused; cases refused
  have reaches := (Failures.prompt_iff within named).mp (prompt seen found present limited spent)
  have reached : now ≤ later := (Nat.le_add_right _ _).trans comes
  -- The window has passed for the entry the refusal was about.
  have gone : names.held key later = 0 := by
    refine Tracked.held_of_forgotten found ?_
    have started := before seen found
    simp only [Failures.forgotten, decide_eq_true_eq]
    omega
  have held := run.held_le spared passed
  rw [held_check limited reached, gone] at held
  obtain ⟨nap, naps⟩ := delayFor_zero limited whole
  exact ⟨nap, by rw [check_fst limited, Nat.le_zero.mp held, naps]⟩

/-- A refusal that keeps its word was read at a prompt instant: the check that
comes at the second named finds the entry it was about. -/
theorem LoginThrottle.prompt_of_retry (whole : second ∣ throttle.maxDelay)
    (before : ∀ seen, names.lookup key = some seen → seen.last ≤ now)
    (retry : ∀ seconds, (throttle.check names key now).1 = .refuse seconds →
      ∃ nap, (throttle.check (throttle.check names key now).2 key
        (now + seconds * second)).1 = .delay nap) : names.Prompt throttle key now := by
  intro seen found present limited spent
  obtain ⟨seconds, refused⟩ := refused_of_lookup limited found present spent
  obtain ⟨_, again, sought, within, named⟩ := of_check_refuse whole refused
  obtain rfl : again = seen := Option.some.inj (sought.symm.trans found)
  rw [Failures.prompt_iff within named]
  by_contra short
  have still : again.forgotten (now + seconds * second) = false := by
    have started := before again found
    simp only [Failures.forgotten, decide_eq_false_iff_not]
    omega
  obtain ⟨nap, naps⟩ := retry seconds refused
  rw [check_fst limited, held_check limited (Nat.le_add_right _ _),
    Tracked.held_of_lookup found still, spent] at naps
  cases naps

end Retry

/-- Every run of a throttle with a ceiling of whole seconds, and every check that
may come next: the promise holds exactly when the count has not saturated and a
refusal is read at a prompt instant. -/
theorem ThrottleRun.honest_iff {throttle : LoginThrottle} {events : List ThrottleEvent}
    {names : Tracked} {key : String} {began latest now : Nat} (whole : second ∣ throttle.maxDelay)
    (run : ThrottleRun throttle ∅ began events names latest) (later : latest ≤ now) :
    ThrottleHonest throttle events names key now ↔
      (Interrupted now (marksOf key events) ∨ streak now (marksOf key events) ≤ maxCount) ∧
        names.Prompt throttle key now := by
  have counts := run.counts
  have before : ∀ seen, names.lookup key = some seen → seen.last ≤ now :=
    fun seen found => (counts.seen key seen found).trans later
  constructor
  · intro honest
    refine ⟨?_, LoginThrottle.prompt_of_retry whole before fun seconds refused => ?_⟩
    · by_cases spared : Interrupted now (marksOf key events)
      · exact .inl spared
      · have counted := counts.exact key now later spared
        rw [honest.exact spared] at counted
        exact .inr (by omega)
    · exact honest.retry seconds refused [] _ now _ .start (by simp) (Nat.le_add_right _ _)
        (Nat.le_refl _)
  · rintro ⟨counted, prompt⟩
    refine ⟨counts.bounded, counts.atMost key now later, ?_, ?_, ?_, ?_, ?_⟩
    · intro spared
      rw [counts.exact key now later spared,
        Nat.min_eq_left (counted.resolve_left spared)]
    · intro free
      by_cases off : throttle.maxDelay = 0
      · simp [LoginThrottle.check, off]
      · rw [LoginThrottle.check_fst off, LoginThrottle.delayFor_free free]
    · intro other name time held
      exact LoginThrottle.check_atMost held
    · intro off
      simp [LoginThrottle.check, off]
    · intro seconds refused since after last time again spared passed comes
      exact LoginThrottle.retry_of_prompt whole prompt before refused again spared passed comes

namespace OneName

/-- Nothing is free, and a nap lasts a second at most. -/
def strict : LoginThrottle := ⟨0, second⟩

/-- The table after failures of one name at one instant. -/
def failed : Nat → Tracked
  | 0 => ∅
  | more + 1 => AList.singleton "ada" ⟨min (more + 1) maxCount, 0⟩

def failures (count : Nat) : List ThrottleEvent :=
  List.replicate count ⟨.failure "ada" 0, none⟩

theorem count_failed (more : Nat) : (failed more).count "ada" 0 = failed (more + 1) := by
  cases more with
  | zero => rfl
  | succ more =>
      have found : (failed (more + 1)).lookup "ada" = some ⟨min (more + 1) maxCount, 0⟩ := rfl
      have again : min (min (more + 1) maxCount + 1) maxCount = min (more + 1 + 1) maxCount := by
        omega
      rw [Tracked.count, found, Option.getD_some,
        if_neg (by simp [Failures.forgotten, forgetAfter, second]), again]
      exact AList.insert_singleton_eq

theorem run (count : Nat) : ThrottleRun strict ∅ 0 (failures count) (failed count) 0 := by
  induction count with
  | zero => exact .start
  | succ more run =>
      rw [← count_failed]
      refine .step run (.failure "ada" (Nat.le_refl 0) (.free ?_))
      cases more with
      | zero => decide
      | succ more => exact Nat.lt_of_le_of_lt (Nat.le_of_eq rfl) (show 1 < maxTracked by decide)

theorem marks (count : Nat) : marksOf "ada" (failures count) = List.replicate count (.failed 0) := by
  induction count with
  | zero => rfl
  | succ more marks =>
      rw [failures, List.replicate_succ, marksOf_failure, ← failures, marks]
      rfl

theorem streak_replicate (count : Nat) : streak 0 (List.replicate count (.failed 0)) = count := by
  induction count with
  | zero => rfl
  | succ more streaks =>
      rw [List.replicate_succ, streak, if_neg (by decide), streaks]

theorem uninterrupted (count : Nat) : ¬ Interrupted 0 (List.replicate count (.failed 0)) := by
  induction count with
  | zero => exact id
  | succ more spared => exact fun interrupted => spared interrupted.2

end OneName

namespace TwoNames

/-- One failure is free, and a nap lasts two seconds at most. -/
def lenient : LoginThrottle := ⟨1, 2 * second⟩

/-- Ada fails four times, a second apart, bob once in between, and grace, who
signs in after her failure, is forgotten. -/
def events : List ThrottleEvent :=
  [⟨.failure "ada" (3 * second), none⟩, ⟨.success "grace", none⟩,
    ⟨.failure "ada" (2 * second), none⟩, ⟨.failure "grace" second, none⟩,
    ⟨.failure "ada" second, none⟩, ⟨.failure "bob" 0, none⟩, ⟨.failure "ada" 0, none⟩]

def names : Tracked :=
  ⟨[⟨"ada", ⟨4, 3 * second⟩⟩, ⟨"bob", ⟨1, 0⟩⟩], by simp [List.NodupKeys, List.keys]⟩

theorem run : ThrottleRun lenient ∅ 0 events names (3 * second) :=
  .step (.step (.step (.step (.step (.step (.step .start
    (.failure "ada" (by decide) (.free (by decide))))
    (.failure "bob" (by decide) (.free (by decide))))
    (.failure "ada" (by decide) (.free (by decide))))
    (.failure "grace" (by decide) (.free (by decide))))
    (.failure "ada" (by decide) (.free (by decide))))
    (.success _ _ "grace"))
    (.failure "ada" (by decide) (.free (by decide)))

end TwoNames

/-- A check of ada two seconds after her fourth failure names 898 seconds and
keeps its word; half a second later it names 897 and does not. -/
theorem ThrottleRun.honest_iff_two_names :
    ThrottleHonest TwoNames.lenient TwoNames.events TwoNames.names "ada" (5 * second) ∧
      ¬ ThrottleHonest TwoNames.lenient TwoNames.events TwoNames.names "ada"
        (5 * second + second / 2) := by
  have counted : streak (5 * second) (marksOf "ada" TwoNames.events) ≤ maxCount := by decide
  refine ⟨(ThrottleRun.honest_iff ⟨2, by decide⟩ TwoNames.run (by decide)).mpr
    ⟨.inr counted, ?_⟩, fun honest => ?_⟩
  · intro seen found _ _ _
    obtain rfl : ⟨4, 3 * second⟩ = seen := Option.some.inj found
    exact .inl ⟨2, by decide⟩
  · obtain ⟨-, prompt⟩ :=
      (ThrottleRun.honest_iff ⟨2, by decide⟩ TwoNames.run (by decide)).mp honest
    exact absurd (prompt ⟨4, 3 * second⟩ rfl (by decide) (by decide) (by decide))
      (by unfold Failures.Prompt; decide)

/-- The count stops at the largest one; and half a second after a failure a
refusal names 899 seconds, after which the name is still refused. -/
theorem throttle_saturates_and_rounds_down :
    (∃ events names, ThrottleRun OneName.strict ∅ 0 events names 0 ∧
      streak 0 (marksOf "ada" events) = 2 ^ 32 ∧ ¬ Interrupted 0 (marksOf "ada" events) ∧
      names.held "ada" 0 = 2 ^ 32 - 1) ∧
    ∃ events names now, ThrottleRun OneName.strict ∅ 0 events names 0 ∧
      (OneName.strict.check names "ada" now).1 = .refuse 899 ∧
      (OneName.strict.check (OneName.strict.check names "ada" now).2 "ada"
        (now + 899 * second)).1 = .refuse 1 := by
  constructor
  · have streaks : streak 0 (marksOf "ada" (OneName.failures (2 ^ 32))) = 2 ^ 32 := by
      rw [OneName.marks, OneName.streak_replicate]
    have spared : ¬ Interrupted 0 (marksOf "ada" (OneName.failures (2 ^ 32))) := by
      rw [OneName.marks]
      exact OneName.uninterrupted _
    refine ⟨_, _, OneName.run (2 ^ 32), streaks, spared, ?_⟩
    rw [(OneName.run (2 ^ 32)).counts.exact "ada" 0 (Nat.le_refl 0) spared, streaks]
    decide
  · exact ⟨_, _, second / 2, OneName.run 1, by decide, by decide⟩

end Crystalline.Identity
