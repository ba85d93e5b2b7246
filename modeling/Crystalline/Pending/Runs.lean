import Mathlib.Order.Basic
import Crystalline.Pending.Store

/-!
# Any sequence of calls

The calls come at instants that never step back, every state is generated once
and every record starts at its insert.  What the store holds is then decided by
the calls before: who was inserted, who was taken and how old they are.
-/

namespace Crystalline.Pending

open PendingStore

section

variable {State : Type*} [DecidableEq State] {Record : Type*} [PendingRecord Record]

namespace PendingStore

/-- The states whose records neither expired nor are old enough to evict. -/
def lively (store : PendingStore State Record) (now : Nat) : List State :=
  (store.records.entries.filter fun entry =>
    now - PendingRecord.started entry.2 < store.ttl &&
      now - PendingRecord.started entry.2 < minEvictAge).map Sigma.fst

variable {store after : PendingStore State Record} {now : Nat} {state : State} {pending : Record}
  {key : State}

theorem mem_lively :
    key ∈ store.lively now ↔ ∃ record, store.records.lookup key = some record ∧
      now - PendingRecord.started record < store.ttl ∧
      now - PendingRecord.started record < minEvictAge := by
  unfold lively
  rw [List.mem_map]
  constructor
  · rintro ⟨entry, member, rfl⟩
    obtain ⟨held, lively⟩ := List.mem_filter.mp member
    exact ⟨entry.2, AList.mem_lookup_iff.mpr held, by simpa using lively⟩
  · rintro ⟨record, found, lively⟩
    exact ⟨⟨key, record⟩,
      List.mem_filter.mpr ⟨AList.mem_lookup_iff.mp found, by simpa using lively⟩, rfl⟩

omit [DecidableEq State] in
theorem lively_nodup : (store.lively now).Nodup :=
  List.Nodup.sublist (List.filter_sublist.map _) store.records.keys_nodup

variable {record : Record}

omit [PendingRecord Record] in
theorem mem_keys_of_lookup {records : AList fun _ : State => Record}
    (found : records.lookup key = some record) : key ∈ records.keys :=
  AList.mem_keys.mp (AList.lookup_isSome.mp (by rw [found]; rfl))

theorem lively_length_le : (store.lively now).length ≤ store.len := by
  refine (List.subperm_of_subset lively_nodup fun key member => ?_).length_le
  obtain ⟨record, found, -⟩ := mem_lively.mp member
  exact mem_keys_of_lookup found

/-- What a store is like between two calls. -/
structure Sound (store : PendingStore State Record) : Prop where
  indexed : Indexed store.records store.order
  bounded : store.len ≤ maxPending
  short : store.order.length ≤ 2 * maxPending + compactSlack + 1

theorem sound_withTtl (ttl : Nat) : Sound (withTtl ttl : PendingStore State Record) where
  indexed := .empty
  bounded := Nat.zero_le _
  short := Nat.zero_le _

omit [PendingRecord Record] in
theorem len_le_of_only (only : ∀ key record, after.records.lookup key = some record →
    store.records.lookup key = some record) : after.len ≤ store.len := by
  refine (List.subperm_of_subset after.records.keys_nodup fun key member => ?_).length_le
  obtain ⟨record, found⟩ := Option.isSome_iff_exists.mp
    (AList.lookup_isSome.mpr (AList.mem_keys.mpr member))
  exact mem_keys_of_lookup (only key record found)

/-- A store made ready for an insert: nothing in it is expired, and its order is
not much longer than its records. -/
structure Ready (store : PendingStore State Record) (now : Nat)
    (ready : PendingStore State Record) : Prop where
  lifetime : ready.ttl = store.ttl
  indexed : Indexed ready.records ready.order
  within : ready.order.Sublist store.order
  alive : ∀ key, ready.records.lookup key =
    (store.records.lookup key).filter fun record => now - PendingRecord.started record < store.ttl
  short : ready.order.length ≤ ready.len * 2 + compactSlack

theorem ready_of_sound (sound : Sound store) :
    Ready store now ((store.purgeExpired now).compactIfSlack now) := by
  have purged : Purged store.ttl now store.records store.order (store.purgeExpired now) :=
    purgeFrom_spec sound.indexed
  unfold compactIfSlack
  split
  · next short => exact ⟨purged.lifetime, purged.indexed, purged.suffix.sublist, purged.alive, short⟩
  · rw [purged.lifetime, compactFrom_young purged.young]
    have indexed : Indexed (store.purgeExpired now).records
        ((store.purgeExpired now).order.filter
          fun entry => entry.2 ∈ (store.purgeExpired now).records) :=
      purged.indexed.sub List.filter_sublist
        fun entry member held => List.mem_filter.mpr ⟨member, by simpa using held⟩
    refine ⟨rfl, indexed, List.filter_sublist.trans purged.suffix.sublist, purged.alive, ?_⟩
    -- every entry kept has a record of its own
    have fewer : ((store.purgeExpired now).order.filter
        fun entry => entry.2 ∈ (store.purgeExpired now).records).length ≤
          (store.purgeExpired now).len := by
      have covered : (((store.purgeExpired now).order.filter
          fun entry => entry.2 ∈ (store.purgeExpired now).records).map Prod.snd) ⊆
            (store.purgeExpired now).records.keys := by
        intro key member
        obtain ⟨entry, among, rfl⟩ := List.mem_map.mp member
        exact AList.mem_keys.mp (by simpa using (List.mem_filter.mp among).2)
      have counted := (List.subperm_of_subset indexed.once covered).length_le
      rwa [List.length_map] at counted
    change ((store.purgeExpired now).order.filter
      fun entry => entry.2 ∈ (store.purgeExpired now).records).length ≤
        (store.purgeExpired now).len * 2 + compactSlack
    omega

theorem Ready.only {ready : PendingStore State Record} (made : Ready store now ready)
    (found : ready.records.lookup key = some record) :
    store.records.lookup key = some record ∧
      now - PendingRecord.started record < store.ttl := by
  rw [made.alive, Option.filter_eq_some_iff] at found
  simpa using found

/-- What an insert leaves. -/
structure Inserted (store : PendingStore State Record) (state : State) (pending : Record)
    (now : Nat) (taken : Bool) (after : PendingStore State Record) : Prop where
  lifetime : after.ttl = store.ttl
  sound : Sound after
  listed : ∀ entry ∈ after.order,
    entry ∈ store.order ∨ entry = (PendingRecord.started pending, state)
  only : ∀ key record, after.records.lookup key = some record →
    store.records.lookup key = some record ∨ taken = true ∧ key = state ∧ record = pending
  spared : ∀ key record, store.records.lookup key = some record →
    now - PendingRecord.started record < store.ttl →
    taken = false ∨ now - PendingRecord.started record < minEvictAge →
    after.records.lookup key = some record
  new : taken = true → after.records.lookup state = some pending
  refuses : taken = false ↔ (store.lively now).length = maxPending

section Insert

variable {ready room : PendingStore State Record} (made : Ready store now ready)
include made

theorem Ready.alive_lookup (found : store.records.lookup key = some record)
    (alive : now - PendingRecord.started record < store.ttl) :
    ready.records.lookup key = some record := by
  rw [made.alive, found, Option.filter_some, if_pos (by simpa using alive)]

variable (sound : Sound store)
include sound

theorem Ready.len_le : ready.len ≤ maxPending :=
  (len_le_of_only fun _ _ found => (made.only found).1).trans sound.bounded

theorem Ready.short_suffix {kept : List (Nat × State)} (suffix : kept <:+ ready.order) :
    kept.length ≤ 2 * maxPending + compactSlack := by
  have fewer := suffix.length_le
  have few := made.short
  have bounded := made.len_le sound
  omega

/-- No record gave way, so all the records left are alive and too young to evict. -/
theorem Ready.refuses (roomed : Roomed ready.ttl now ready.records ready.order false room) :
    Inserted store state pending now false room := by
  obtain ⟨full, young⟩ := roomed.full rfl
  constructor
  · exact roomed.lifetime.trans made.lifetime
  · exact ⟨roomed.indexed, (len_le_of_only roomed.only).trans (made.len_le sound),
      (made.short_suffix sound roomed.suffix).trans (Nat.le_succ _)⟩
  · exact fun entry member => .inl (made.within.subset (roomed.suffix.subset member))
  · exact fun key record found => .inl (made.only (roomed.only key record found)).1
  · intro key record found alive _
    have held := made.alive_lookup found alive
    exact roomed.spared key record held (young key record held)
  · intro taken
    cases taken
  · refine iff_of_true rfl (le_antisymm (lively_length_le.trans sound.bounded) ?_)
    refine full.trans (List.subperm_of_subset room.records.keys_nodup ?_).length_le
    intro key member
    obtain ⟨record, found⟩ := Option.isSome_iff_exists.mp
      (AList.lookup_isSome.mpr (AList.mem_keys.mpr member))
    have held := roomed.only key record found
    obtain ⟨before, alive⟩ := made.only held
    exact mem_lively.mpr ⟨record, before, alive, young key record held⟩

variable (fresh : ∀ entry ∈ store.order, entry.2 ≠ state)
  (latest : ∀ entry ∈ store.order, entry.1 ≤ PendingRecord.started pending)
include fresh latest

omit sound in
theorem Ready.push (roomed : Roomed ready.ttl now ready.records ready.order true room) :
    Indexed (room.records.insert state pending)
      (room.order ++ [(PendingRecord.started pending, state)]) := by
  have among : ∀ entry ∈ room.order, entry ∈ store.order := fun entry member =>
    made.within.subset (roomed.suffix.subset member)
  exact roomed.indexed.push (fun entry member => fresh entry (among entry member))
    fun entry member => latest entry (among entry member)

/-- The record is put behind those that are left, which are fewer than the cap. -/
theorem Ready.takes (roomed : Roomed ready.ttl now ready.records ready.order true room) :
    Inserted store state pending now true { room with
      order := room.order ++ [(PendingRecord.started pending, state)]
      records := room.records.insert state pending } := by
  have space : room.len < maxPending := roomed.room rfl
  constructor
  · exact roomed.lifetime.trans made.lifetime
  · refine ⟨made.push fresh latest roomed, ?_, ?_⟩
    · have new : (room.records.insert state pending).keys.length ≤
          room.records.keys.length + 1 := by
        rw [AList.keys_insert, List.length_cons]
        exact Nat.succ_le_succ List.length_erase_le
      exact new.trans space
    · have fewer := made.short_suffix sound roomed.suffix
      change (room.order ++ [(PendingRecord.started pending, state)]).length ≤ _
      rw [List.length_append, List.length_singleton]
      omega
  · intro entry member
    rcases List.mem_append.mp member with old | new
    · exact .inl (made.within.subset (roomed.suffix.subset old))
    · exact .inr (List.mem_singleton.mp new)
  · intro key record found
    by_cases same : key = state
    · subst same
      rw [AList.lookup_insert] at found
      exact .inr ⟨rfl, rfl, (Option.some.inj found).symm⟩
    · rw [AList.lookup_insert_ne same] at found
      exact .inl (made.only (roomed.only key record found)).1
  · intro key record found alive young
    have other : key ≠ state := fresh _ (sound.indexed.held key record found)
    change (room.records.insert state pending).lookup key = some record
    rw [AList.lookup_insert_ne other]
    exact roomed.spared key record (made.alive_lookup found alive)
      (young.resolve_left (by simp))
  · intro _
    exact AList.lookup_insert _
  · refine iff_of_false (by simp) fun full => ?_
    have kept : (store.lively now).length ≤ room.len := by
      refine (List.subperm_of_subset lively_nodup fun key member => ?_).length_le
      obtain ⟨record, found, alive, young⟩ := mem_lively.mp member
      exact mem_keys_of_lookup (roomed.spared key record (made.alive_lookup found alive) young)
    omega

end Insert

theorem insertAt_spec (sound : Sound store) (fresh : ∀ entry ∈ store.order, entry.2 ≠ state)
    (latest : ∀ entry ∈ store.order, entry.1 ≤ PendingRecord.started pending) :
    Inserted store state pending now (store.insertAt state pending now).1
      (store.insertAt state pending now).2 := by
  have made : Ready store now ((store.purgeExpired now).compactIfSlack now) :=
    ready_of_sound sound
  unfold insertAt
  dsimp only
  generalize (store.purgeExpired now).compactIfSlack now = ready at made
  have roomed : Roomed ready.ttl now ready.records ready.order
      (evictFrom ready.ttl now ready.records ready.order).1
      (evictFrom ready.ttl now ready.records ready.order).2 :=
    evictFrom_spec made.indexed (made.len_le sound)
  generalize evictFrom ready.ttl now ready.records ready.order = outcome at roomed
  obtain ⟨taken, room⟩ := outcome
  cases taken with
  | false => exact made.refuses sound roomed
  | true => exact made.takes sound fresh latest roomed

/-- What a take leaves: the other records, as far as they are alive. -/
structure Taken (store : PendingStore State Record) (state : State) (now : Nat)
    (after : PendingStore State Record) : Prop where
  lifetime : after.ttl = store.ttl
  sound : Sound after
  listed : ∀ entry ∈ after.order, entry ∈ store.order
  others : ∀ key, after.records.lookup key =
    if key = state then none
    else (store.records.lookup key).filter fun record =>
      now - PendingRecord.started record < store.ttl

theorem takeAt_store : (store.takeAt state now).2 =
    { store with records := store.records.erase state }.purgeExpired now := by
  unfold takeAt
  dsimp only
  cases store.records.lookup state with
  | none => rfl
  | some pending =>
      dsimp only
      split <;> rfl

theorem takeAt_spec (sound : Sound store) :
    Taken store state now (store.takeAt state now).2 := by
  rw [takeAt_store]
  have indexed : Indexed (store.records.erase state) store.order :=
    ⟨sound.indexed.chronological, sound.indexed.once, fun key record found => by
      have other : key ≠ state := by
        rintro rfl
        rw [AList.lookup_erase] at found
        cases found
      rw [AList.lookup_erase_ne other] at found
      exact sound.indexed.held key record found⟩
  have purged : Purged store.ttl now (store.records.erase state) store.order
      ({ store with records := store.records.erase state }.purgeExpired now) :=
    purgeFrom_spec indexed
  have others : ∀ key,
      ({ store with records := store.records.erase state }.purgeExpired now).records.lookup key =
        if key = state then none
        else (store.records.lookup key).filter fun record =>
          now - PendingRecord.started record < store.ttl := by
    intro key
    rw [purged.alive]
    by_cases same : key = state
    · subst same
      rw [if_pos rfl, AList.lookup_erase, Option.filter_none]
    · rw [if_neg same, AList.lookup_erase_ne same]
  refine ⟨purged.lifetime, ⟨purged.indexed, ?_, ?_⟩, fun entry member =>
    purged.suffix.subset member, others⟩
  · refine (len_le_of_only fun key record found => ?_).trans sound.bounded
    rw [others] at found
    split at found
    · cases found
    · exact (Option.filter_eq_some_iff.mp found).1
  · exact purged.suffix.length_le.trans sound.short

theorem takeAt_unknown (absent : store.records.lookup state = none) :
    (store.takeAt state now).1 = .error .unknown := by
  unfold takeAt
  rw [absent]

section

variable (found : store.records.lookup state = some pending)
include found

theorem takeAt_young (young : now - PendingRecord.started pending < store.ttl) :
    (store.takeAt state now).1 = .ok pending := by
  unfold takeAt
  rw [found]
  dsimp only
  rw [if_pos young]

theorem takeAt_old (old : ¬ now - PendingRecord.started pending < store.ttl) :
    (store.takeAt state now).1 = .error .expired := by
  unfold takeAt
  rw [found]
  dsimp only
  rw [if_neg old]

end

end PendingStore

end

inductive Call (State Record : Type*) where
  | insert (state : State) (pending : Record)
  | take (state : State)

inductive Answer (Record : Type*) where
  | inserted
  | full
  | taken (record : Record)
  | missed (miss : StateMiss)

def Answer.ofTake {Record : Type*} : Except StateMiss Record → Answer Record
  | .ok record => .taken record
  | .error miss => .missed miss

/-- One call, with the store before and after it. -/
structure Event (State Record : Type*) where
  now : Nat
  call : Call State Record
  answer : Answer Record
  before : PendingStore State Record
  after : PendingStore State Record

variable {State : Type*} [DecidableEq State] {Record : Type*} [PendingRecord Record]

/-- An insert under a state. -/
def Event.inserts (event : Event State Record) (state : State) (pending : Record) : Prop :=
  event.call = .insert state pending ∧ event.answer = .inserted

/-- A take that answered the record of a state. -/
def Event.takes (event : Event State Record) (state : State) : Prop :=
  event.call = .take state ∧ ∃ record, event.answer = .taken record

/-- `insert_at` and `take_at`, as one event. -/
def Call.perform (call : Call State Record) (now : Nat) (store : PendingStore State Record) :
    Event State Record :=
  match call with
  | .insert state pending =>
      ⟨now, call, if (store.insertAt state pending now).1 then .inserted else .full, store,
        (store.insertAt state pending now).2⟩
  | .take state =>
      ⟨now, call, .ofTake (store.takeAt state now).1, store, (store.takeAt state now).2⟩

/-- Whether a call may follow the events so far: its instant is not before
theirs, and an insert brings a new state and a record that starts now. -/
structure Fits (events : List (Event State Record)) (call : Call State Record) (now : Nat) :
    Prop where
  later : ∀ event ∈ events, event.now ≤ now
  starts : ∀ state pending, call = .insert state pending → PendingRecord.started pending = now
  fresh : ∀ state pending, call = .insert state pending →
    ∀ event ∈ events, ∀ other, event.call ≠ .insert state other

/-- The calls on a new store, the last one first. -/
inductive Run (ttl : Nat) : List (Event State Record) → PendingStore State Record → Prop where
  | start : Run ttl [] (withTtl ttl)
  | call {events : List (Event State Record)} {store : PendingStore State Record}
      {call : Call State Record} {now : Nat} :
      Run ttl events store → Fits events call now →
      Run ttl (call.perform now store :: events) (call.perform now store).after

/-- What one call answers, given the calls before it. -/
structure Honest (ttl : Nat) (earlier : List (Event State Record)) (event : Event State Record) :
    Prop where
  taken : ∀ state record, event.call = .take state → event.answer = .taken record →
    (∃ origin ∈ earlier, origin.inserts state record ∧ event.now - origin.now < ttl) ∧
      ∀ other ∈ earlier, ¬ other.takes state
  expired : ∀ state, event.call = .take state → event.answer = .missed .expired →
    ∃ origin ∈ earlier, ∃ record, origin.inserts state record ∧ ttl ≤ event.now - origin.now
  refuses : ∀ state pending, event.call = .insert state pending →
    (event.answer = .full ↔ (event.before.lively event.now).length = maxPending)
  spares : event.answer = .full → ∀ key record, event.before.records.lookup key = some record →
    event.now - PendingRecord.started record < ttl → event.after.records.lookup key = some record

/-- What the store holds after the calls so far. -/
structure Kept (ttl : Nat) (events : List (Event State Record))
    (store : PendingStore State Record) : Prop where
  sound : Sound store
  survives : ∀ origin ∈ events, ∀ state pending, origin.inserts state pending →
    (∀ event ∈ events, ¬ event.takes state) →
    (∀ event ∈ events, event.now - origin.now < ttl ∧ event.now - origin.now < minEvictAge) →
    store.records.lookup state = some pending

/-- Where the records and the entries of a store come from. -/
structure Traced (ttl : Nat) (events : List (Event State Record))
    (store : PendingStore State Record) : Prop where
  lifetime : store.ttl = ttl
  starts : ∀ event ∈ events, ∀ state pending, event.call = .insert state pending →
    PendingRecord.started pending = event.now
  listed : ∀ entry ∈ store.order, ∃ origin ∈ events, ∃ pending,
    origin.call = .insert entry.2 pending ∧ origin.now = entry.1
  held : ∀ key record, store.records.lookup key = some record →
    (∃ origin ∈ events, origin.inserts key record ∧
      origin.now = PendingRecord.started record) ∧ ∀ event ∈ events, ¬ event.takes key
  known : ∀ event ∈ events, ∀ state, event.takes state →
    ∃ origin ∈ events, ∃ pending, origin.call = .insert state pending

variable {ttl now : Nat} {events : List (Event State Record)} {store : PendingStore State Record}
  {state : State} {pending : Record}

theorem insert_answer : ((Call.insert state pending).perform now store).answer = .inserted ↔
    (store.insertAt state pending now).1 = true := by
  change (if (store.insertAt state pending now).1 = true then Answer.inserted else .full) = _ ↔ _
  cases (store.insertAt state pending now).1 with
  | false => simp
  | true => simp

theorem insert_full : ((Call.insert state pending).perform now store).answer = .full ↔
    (store.insertAt state pending now).1 = false := by
  change (if (store.insertAt state pending now).1 = true then Answer.inserted else .full) = _ ↔ _
  cases (store.insertAt state pending now).1 with
  | false => simp
  | true => simp

theorem not_takes_insert {other : State} :
    ¬ ((Call.insert state pending).perform now store).takes other := by
  rintro ⟨call, -⟩
  cases call

theorem inserted_of_fits (traced : Traced ttl events store) (kept : Kept ttl events store)
    (fits : Fits events (.insert state pending) now) :
    Inserted store state pending now (store.insertAt state pending now).1
      (store.insertAt state pending now).2 := by
  refine insertAt_spec kept.sound (fun entry member same => ?_) fun entry member => ?_
  · obtain ⟨origin, among, other, call, -⟩ := traced.listed entry member
    rw [same] at call
    exact fits.fresh state pending rfl origin among other call
  · obtain ⟨origin, among, other, -, same⟩ := traced.listed entry member
    rw [← same, fits.starts state pending rfl]
    exact fits.later origin among

section Insert

variable (traced : Traced ttl events store) (kept : Kept ttl events store)
  (fits : Fits events (.insert state pending) now)

include traced kept fits

theorem honest_insert : Honest ttl events ((Call.insert state pending).perform now store) := by
  have inserted := inserted_of_fits traced kept fits
  constructor
  · intro other record call
    cases call
  · intro other call
    cases call
  · rintro _ _ ⟨⟩
    rw [insert_full]
    exact inserted.refuses
  · intro full key record found alive
    rw [insert_full] at full
    exact inserted.spared key record found (by rwa [traced.lifetime]) (.inl full)

theorem kept_insert : Kept ttl ((Call.insert state pending).perform now store :: events)
    ((Call.insert state pending).perform now store).after := by
  have inserted := inserted_of_fits traced kept fits
  refine ⟨inserted.sound, fun origin member key record made untaken young => ?_⟩
  rcases List.mem_cons.mp member with rfl | before
  · obtain ⟨call, answer⟩ := made
    cases call
    exact inserted.new (insert_answer.mp answer)
  · have found := kept.survives origin before key record made
      (fun event among => untaken event (List.mem_cons_of_mem _ among))
      fun event among => young event (List.mem_cons_of_mem _ among)
    have age := young _ List.mem_cons_self
    have started := traced.starts origin before key record made.1
    change now - origin.now < ttl ∧ now - origin.now < minEvictAge at age
    rw [← started] at age
    exact inserted.spared key record found (by rw [traced.lifetime]; exact age.1) (.inr age.2)

theorem traced_insert : Traced ttl ((Call.insert state pending).perform now store :: events)
    ((Call.insert state pending).perform now store).after := by
  have inserted := inserted_of_fits traced kept fits
  constructor
  · exact inserted.lifetime.trans traced.lifetime
  · intro event member key record call
    rcases List.mem_cons.mp member with rfl | before
    · cases call
      exact fits.starts state pending rfl
    · exact traced.starts event before key record call
  · intro entry member
    rcases inserted.listed entry member with old | rfl
    · obtain ⟨origin, among, rest⟩ := traced.listed entry old
      exact ⟨origin, List.mem_cons_of_mem _ among, rest⟩
    · exact ⟨_, List.mem_cons_self, pending, rfl, (fits.starts state pending rfl).symm⟩
  · intro key record found
    rcases inserted.only key record found with old | ⟨taken, rfl, rfl⟩
    · obtain ⟨⟨origin, among, rest⟩, untaken⟩ := traced.held key record old
      refine ⟨⟨origin, List.mem_cons_of_mem _ among, rest⟩, fun event member => ?_⟩
      rcases List.mem_cons.mp member with rfl | before
      · exact not_takes_insert
      · exact untaken event before
    · refine ⟨⟨_, List.mem_cons_self, ⟨rfl, insert_answer.mpr taken⟩,
        (fits.starts key record rfl).symm⟩, fun event member takes => ?_⟩
      rcases List.mem_cons.mp member with rfl | before
      · exact not_takes_insert takes
      · obtain ⟨origin, among, other, call⟩ := traced.known event before key takes
        exact fits.fresh key record rfl origin among other call
  · intro event member key takes
    rcases List.mem_cons.mp member with rfl | before
    · exact absurd takes not_takes_insert
    · obtain ⟨origin, among, rest⟩ := traced.known event before key takes
      exact ⟨origin, List.mem_cons_of_mem _ among, rest⟩

end Insert

theorem taken_answer {record : Record}
    (answer : ((Call.take state : Call State Record).perform now store).answer = .taken record) :
    store.records.lookup state = some record ∧
      now - PendingRecord.started record < store.ttl := by
  change Answer.ofTake (store.takeAt state now).1 = .taken record at answer
  cases found : store.records.lookup state with
  | none =>
      rw [takeAt_unknown found] at answer
      cases answer
  | some pending =>
      by_cases young : now - PendingRecord.started pending < store.ttl
      · rw [takeAt_young found young] at answer
        cases answer
        exact ⟨rfl, young⟩
      · rw [takeAt_old found young] at answer
        cases answer

theorem expired_answer
    (answer : ((Call.take state : Call State Record).perform now store).answer =
      .missed .expired) :
    ∃ record, store.records.lookup state = some record ∧
      store.ttl ≤ now - PendingRecord.started record := by
  change Answer.ofTake (store.takeAt state now).1 = .missed .expired at answer
  cases found : store.records.lookup state with
  | none =>
      rw [takeAt_unknown found] at answer
      cases answer
  | some pending =>
      by_cases young : now - PendingRecord.started pending < store.ttl
      · rw [takeAt_young found young] at answer
        cases answer
      · exact ⟨pending, rfl, Nat.not_lt.mp young⟩

theorem take_never_full :
    ((Call.take state : Call State Record).perform now store).answer ≠ .full := by
  change Answer.ofTake (store.takeAt state now).1 ≠ .full
  cases (store.takeAt state now).1 with
  | ok record => exact fun same => by cases same
  | error miss => exact fun same => by cases same

section Take

variable (traced : Traced ttl events store) (kept : Kept ttl events store)

include traced

theorem honest_take :
    Honest ttl events ((Call.take state : Call State Record).perform now store) := by
  constructor
  · rintro _ record ⟨⟩ answer
    obtain ⟨found, young⟩ := taken_answer answer
    obtain ⟨⟨origin, among, inserts, instant⟩, untaken⟩ := traced.held state record found
    rw [traced.lifetime, ← instant] at young
    exact ⟨⟨origin, among, inserts, young⟩, untaken⟩
  · rintro _ ⟨⟩ answer
    obtain ⟨record, found, old⟩ := expired_answer answer
    obtain ⟨⟨origin, among, inserts, instant⟩, -⟩ := traced.held state record found
    rw [traced.lifetime, ← instant] at old
    exact ⟨origin, among, record, inserts, old⟩
  · intro key record call
    cases call
  · exact fun full => absurd full take_never_full

include kept

theorem kept_take : Kept ttl ((Call.take state : Call State Record).perform now store :: events)
    ((Call.take state : Call State Record).perform now store).after := by
  have outcome : Taken store state now (store.takeAt state now).2 := takeAt_spec kept.sound
  refine ⟨outcome.sound, fun origin member key record made untaken young => ?_⟩
  rcases List.mem_cons.mp member with rfl | before
  · cases made.1
  · have found := kept.survives origin before key record made
      (fun event among => untaken event (List.mem_cons_of_mem _ among))
      fun event among => young event (List.mem_cons_of_mem _ among)
    have age := (young _ List.mem_cons_self).1
    change now - origin.now < ttl at age
    rw [← traced.starts origin before key record made.1, ← traced.lifetime] at age
    change (store.takeAt state now).2.records.lookup key = some record
    rw [outcome.others]
    by_cases same : key = state
    · -- a record this young would have been taken
      subst same
      refine absurd ⟨rfl, record, ?_⟩ (untaken _ List.mem_cons_self)
      change Answer.ofTake (store.takeAt key now).1 = .taken record
      rw [takeAt_young found age]
      rfl
    · rw [if_neg same, found, Option.filter_some, if_pos (by simpa using age)]

theorem traced_take : Traced ttl ((Call.take state : Call State Record).perform now store :: events)
    ((Call.take state : Call State Record).perform now store).after := by
  have outcome : Taken store state now (store.takeAt state now).2 := takeAt_spec kept.sound
  constructor
  · exact outcome.lifetime.trans traced.lifetime
  · intro event member key record call
    rcases List.mem_cons.mp member with rfl | before
    · cases call
    · exact traced.starts event before key record call
  · intro entry member
    obtain ⟨origin, among, rest⟩ := traced.listed entry (outcome.listed entry member)
    exact ⟨origin, List.mem_cons_of_mem _ among, rest⟩
  · intro key record found
    change (store.takeAt state now).2.records.lookup key = some record at found
    rw [outcome.others] at found
    split at found
    · cases found
    · next other =>
      obtain ⟨⟨origin, among, rest⟩, untaken⟩ :=
        traced.held key record (Option.filter_eq_some_iff.mp found).1
      refine ⟨⟨origin, List.mem_cons_of_mem _ among, rest⟩, fun event member takes => ?_⟩
      rcases List.mem_cons.mp member with rfl | before
      · cases takes.1
        exact other rfl
      · exact untaken event before takes
  · intro event member key takes
    rcases List.mem_cons.mp member with rfl | before
    · obtain ⟨call, record, answer⟩ := takes
      cases call
      obtain ⟨⟨origin, among, inserts, -⟩, -⟩ :=
        traced.held state record (taken_answer answer).1
      exact ⟨origin, List.mem_cons_of_mem _ among, record, inserts.1⟩
    · obtain ⟨origin, among, rest⟩ := traced.known event before key takes
      exact ⟨origin, List.mem_cons_of_mem _ among, rest⟩

end Take

theorem run_kept (run : Run ttl events store) :
    Kept ttl events store ∧ Traced ttl events store := by
  induction run with
  | start =>
      refine ⟨⟨sound_withTtl ttl, by simp⟩, rfl, by simp, by simp [withTtl], ?_, by simp⟩
      intro key record found
      cases found
  | @call events store call now run fits induction =>
      obtain ⟨kept, traced⟩ := induction
      cases call with
      | insert state pending =>
          exact ⟨kept_insert traced kept fits, traced_insert traced kept fits⟩
      | take state => exact ⟨kept_take traced kept, traced_take traced kept⟩

/-- The round trips are single-use, bounded, and no flood pushes out a record
too young to evict. -/
theorem round_trips_kept (run : Run ttl events store) :
    Kept ttl events store ∧
      ∀ later event earlier, events = later ++ event :: earlier → Honest ttl earlier event := by
  refine ⟨(run_kept run).1, ?_⟩
  induction run with
  | start => simp
  | @call events store call now run fits induction =>
      intro later event earlier same
      cases later with
      | nil =>
          obtain ⟨rfl, rfl⟩ := List.cons.inj same
          obtain ⟨kept, traced⟩ := run_kept run
          cases call with
          | insert state pending => exact honest_insert traced kept fits
          | take state => exact honest_take traced
      | cons first later =>
          obtain ⟨-, rest⟩ := List.cons.inj same
          exact induction later event earlier rest

namespace Visits

structure Visit where
  started : Nat
  deriving DecidableEq

instance : PendingRecord Visit := ⟨Visit.started⟩

/-- A store that a flood of sign-ins at one instant has filled to a count. -/
structure Flooded (count : Nat) (store : PendingStore Nat Visit) : Prop where
  lifetime : store.ttl = pendingTtl
  order : store.order = (List.range count).map fun state => (0, state)
  held : ∀ state, store.records.lookup state = if state < count then some ⟨0⟩ else none

variable {count now : Nat} {store : PendingStore Nat Visit}

theorem Flooded.mem (flooded : Flooded count store) (state : Nat) :
    state ∈ store.records ↔ state < count := by
  rw [← AList.lookup_isSome, flooded.held]
  split <;> simp_all

theorem Flooded.size (flooded : Flooded count store) : store.records.keys.length = count := by
  have same : store.records.keys.Perm (List.range count) :=
    (List.perm_ext_iff_of_nodup store.records.keys_nodup List.nodup_range).mpr fun state => by
      rw [← AList.mem_keys, flooded.mem, List.mem_range]
  rw [same.length_eq, List.length_range]

theorem Flooded.front (flooded : Flooded (count + 1) store) :
    store.order = (0, 0) :: (List.range count).map fun state => (0, state + 1) := by
  rw [flooded.order, List.range_succ_eq_map, List.map_cons, List.map_map]
  rfl

/-- Nothing in it expires within its lifetime, and its order has no slack. -/
theorem Flooded.ready (flooded : Flooded count store) (early : now < pendingTtl) :
    (store.purgeExpired now).compactIfSlack now = store := by
  have purged : store.purgeExpired now = store := by
    cases count with
    | zero =>
        rw [purgeExpired, flooded.order]
        obtain ⟨records, order, ttl⟩ := store
        exact congrArg (PendingStore.mk records · ttl) flooded.order.symm
    | succ count =>
        have alive : 0 ∈ store.records ∧ now - 0 < store.ttl :=
          ⟨(flooded.mem 0).mpr (Nat.zero_lt_succ count), by rw [flooded.lifetime]; exact early⟩
        rw [purgeExpired, flooded.front, purgeFrom, if_pos alive, ← flooded.front]
  have short : store.order.length ≤ store.len * 2 + compactSlack := by
    rw [flooded.order, List.length_map, List.length_range, len, flooded.size]
    omega
  rw [purged, compactIfSlack, if_pos short]

theorem evictFrom_room {records : AList fun _ : Nat => Visit} {order : List (Nat × Nat)}
    {ttl : Nat} (room : records.keys.length < maxPending) :
    evictFrom ttl now records order = (true, ⟨records, order, ttl⟩) := by
  cases order with
  | nil => rfl
  | cons entry order => rw [evictFrom, if_pos room]

theorem Flooded.insert (flooded : Flooded count store) (room : count < maxPending) :
    (store.insertAt count ⟨0⟩ 0).1 = true ∧
      Flooded (count + 1) (store.insertAt count ⟨0⟩ 0).2 := by
  rw [insertAt, flooded.ready (by decide), evictFrom_room (by rw [flooded.size]; exact room)]
  refine ⟨rfl, flooded.lifetime, ?_, fun state => ?_⟩
  · change store.order ++ [(0, count)] = _
    rw [flooded.order, List.range_succ, List.map_append]
    rfl
  · change (store.records.insert count ⟨0⟩).lookup state = _
    by_cases same : state = count
    · subst same
      rw [AList.lookup_insert, if_pos (Nat.lt_succ_self _)]
    · rw [AList.lookup_insert_ne same, flooded.held]
      exact if_congr (by omega) rfl rfl

section

variable (flooded : Flooded maxPending store)
include flooded

/-- The full store refuses while its oldest record is too young to evict. -/
theorem Flooded.refuses (state : Nat) : store.insertAt state ⟨0⟩ 0 = (false, store) := by
  have front := @Flooded.front (maxPending - 1) store flooded
  have full : ¬ store.records.keys.length < maxPending := by
    rw [flooded.size]
    exact Nat.lt_irrefl _
  have young : 0 ∈ store.records ∧ 0 - 0 < minEvictAge :=
    ⟨(flooded.mem 0).mpr (by decide), by decide⟩
  rw [insertAt, flooded.ready (by decide), front, evictFrom, if_neg full, if_pos young, ← front]

/-- Once it is old enough the oldest record makes room. -/
theorem Flooded.evicts (state : Nat) :
    (store.insertAt state ⟨seconds 30⟩ (seconds 30)).1 = true ∧
      (store.insertAt state ⟨seconds 30⟩ (seconds 30)).2.records =
        (store.records.erase 0).insert state ⟨seconds 30⟩ := by
  have front := @Flooded.front (maxPending - 1) store flooded
  have full : ¬ store.records.keys.length < maxPending := by
    rw [flooded.size]
    exact Nat.lt_irrefl _
  have old : ¬ (0 ∈ store.records ∧ seconds 30 - 0 < minEvictAge) :=
    fun young => absurd young.2 (by decide)
  have room : (store.records.erase 0).keys.length < maxPending := by
    have member := AList.mem_keys.mp ((flooded.mem 0).mpr (by decide))
    rw [AList.keys_erase, List.length_erase_of_mem member, flooded.size]
    decide
  rw [insertAt, flooded.ready (by decide), front, evictFrom, if_neg full, if_neg old,
    evictFrom_room room]
  exact ⟨rfl, rfl⟩

end

theorem flood_run {count : Nat} (room : count ≤ maxPending) :
    ∃ events, ∃ store : PendingStore Nat Visit, Run pendingTtl events store ∧
      Flooded count store ∧ ∀ event ∈ events, event.now = 0 ∧
        ∀ state pending, event.call = .insert state pending → state < count := by
  induction count with
  | zero =>
      refine ⟨[], withTtl pendingTtl, .start, ⟨rfl, rfl, fun state => ?_⟩, by simp⟩
      exact AList.lookup_empty _
  | succ count induction =>
      obtain ⟨events, store, run, flooded, calls⟩ := induction (Nat.le_of_succ_le room)
      have fits : Fits events (.insert count (Visit.mk 0)) 0 := by
        refine ⟨fun event among => (calls event among).1.le, ?_, ?_⟩
        · rintro _ _ ⟨⟩
          rfl
        · rintro _ _ ⟨⟩ event among other call
          exact Nat.lt_irrefl _ ((calls event among).2 _ _ call)
      refine ⟨_, _, .call run fits, (flooded.insert room).2, fun event among => ?_⟩
      rcases List.mem_cons.mp among with rfl | before
      · refine ⟨rfl, ?_⟩
        rintro _ _ ⟨⟩
        exact Nat.lt_succ_self _
      · refine ⟨(calls event before).1, fun state pending call => ?_⟩
        exact Nat.lt_succ_of_lt ((calls event before).2 state pending call)

/-- A flood, the insert that the full store refuses, the one that evicts the
oldest record half a minute later, and the take of the next one. -/
theorem round_trips_kept_flooded :
    ∃ events, ∃ store : PendingStore Nat Visit,
      (∃ event ∈ events, event.answer = .full) ∧
      (∃ event ∈ events, event.answer = .inserted ∧
        event.before.records.lookup 0 = some ⟨0⟩ ∧ event.after.records.lookup 0 = none) ∧
      (∃ event ∈ events, event.takes 1) ∧
      Kept pendingTtl events store ∧
        ∀ later event earlier, events = later ++ event :: earlier →
          Honest pendingTtl earlier event := by
  obtain ⟨events, store, run, flooded, calls⟩ := flood_run (le_refl maxPending)
  let refused : Event Nat Visit := (Call.insert maxPending ⟨0⟩).perform 0 store
  let evicting : Event Nat Visit :=
    (Call.insert (maxPending + 1) ⟨seconds 30⟩).perform (seconds 30) store
  let taken : Event Nat Visit := (Call.take 1).perform (seconds 30) evicting.after
  have full : refused.answer = .full := insert_full.mpr (congrArg Prod.fst (flooded.refuses _))
  have unchanged : refused.after = store := congrArg Prod.snd (flooded.refuses _)
  have runRefused : Run pendingTtl (refused :: events) store := by
    rw [← unchanged]
    refine .call run ⟨fun event among => (calls event among).1.le, ?_, ?_⟩
    · rintro _ _ ⟨⟩
      rfl
    · rintro _ _ ⟨⟩ event among other call
      exact Nat.lt_irrefl _ ((calls event among).2 _ _ call)
  have runEvicting : Run pendingTtl (evicting :: refused :: events) evicting.after := by
    refine .call runRefused ⟨fun event among => ?_, ?_, ?_⟩
    · rcases List.mem_cons.mp among with rfl | before
      · exact Nat.zero_le _
      · rw [(calls event before).1]
        exact Nat.zero_le _
    · rintro _ _ ⟨⟩
      rfl
    · rintro _ _ ⟨⟩ event among other call
      rcases List.mem_cons.mp among with rfl | before
      · cases call
      · exact absurd ((calls event before).2 _ _ call) (by omega)
  have runTaken : Run pendingTtl (taken :: evicting :: refused :: events) taken.after := by
    refine .call runEvicting ⟨fun event among => ?_, ?_, ?_⟩
    · rcases List.mem_cons.mp among with rfl | among
      · exact Nat.le_refl _
      rcases List.mem_cons.mp among with rfl | before
      · exact Nat.zero_le _
      · rw [(calls event before).1]
        exact Nat.zero_le _
    · intro state pending call
      cases call
    · intro state pending call
      cases call
  have records : evicting.after.records =
      (store.records.erase 0).insert (maxPending + 1) ⟨seconds 30⟩ := (flooded.evicts _).2
  refine ⟨_, _, ⟨refused, by simp, full⟩, ⟨evicting, by simp, ?_, ?_, ?_⟩,
    ⟨taken, by simp, rfl, ⟨0⟩, ?_⟩, round_trips_kept runTaken⟩
  · exact insert_answer.mpr (flooded.evicts _).1
  · change store.records.lookup 0 = _
    rw [flooded.held, if_pos (by decide)]
  · rw [records, AList.lookup_insert_ne (by decide), AList.lookup_erase]
  · have found : evicting.after.records.lookup 1 = some ⟨0⟩ := by
      rw [records, AList.lookup_insert_ne (by decide), AList.lookup_erase_ne (by decide),
        flooded.held, if_pos (by decide)]
    have young : seconds 30 - PendingRecord.started (Visit.mk 0) < evicting.after.ttl := by
      rw [(run_kept runEvicting).2.lifetime]
      decide
    change Answer.ofTake (evicting.after.takeAt 1 (seconds 30)).1 = _
    rw [takeAt_young found young]
    rfl

/-- A sign-in that starts, and a question for another state later. -/
def started : Event Nat Visit := (Call.insert 0 ⟨0⟩).perform 0 (withTtl (seconds 10))

def asked (now : Nat) : Event Nat Visit := (Call.take 1).perform now started.after

theorem run (now : Nat) : Run (seconds 10) [asked now, started] (asked now).after := by
  refine .call (.call .start ⟨by simp, ?_, by simp⟩) ⟨?_, ?_, ?_⟩
  · rintro _ _ ⟨⟩
    rfl
  · intro event member
    rw [List.mem_singleton.mp member]
    exact Nat.zero_le _
  · intro state pending call
    cases call
  · intro state pending call
    cases call

/-- A record is gone at the instant its time is up, not after it. -/
theorem gone_at_its_ttl :
    Run (seconds 10) [asked (seconds 10), started] (asked (seconds 10)).after ∧
      started.inserts 0 ⟨0⟩ ∧
      (∀ event ∈ [asked (seconds 10), started], ¬ event.takes 0) ∧
      (∀ event ∈ [asked (seconds 10), started],
        event.now - started.now ≤ seconds 10 ∧ event.now - started.now ≤ minEvictAge) ∧
      (asked (seconds 10)).after.records.lookup 0 = none := by
  refine ⟨run _, ⟨rfl, insert_answer.mpr (by decide)⟩, ?_, ?_, by decide⟩
  · intro event member takes
    rcases List.mem_cons.mp member with rfl | last
    · exact absurd takes.1 (by simp [asked, Call.perform])
    · rw [List.mem_singleton.mp last] at takes
      exact not_takes_insert takes
  · intro event member
    rcases List.mem_cons.mp member with rfl | last
    · exact ⟨by decide, by decide⟩
    · rw [List.mem_singleton.mp last]
      exact ⟨by decide, by decide⟩

end Visits

end Crystalline.Pending
