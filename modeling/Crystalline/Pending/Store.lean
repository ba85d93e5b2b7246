import Mathlib.Data.List.AList

/-!
# The order indexes the records

Every held record has one entry in the order, at its own instant, and the order
is chronological.  Expiry and eviction walk it from the front, so what they
remove is decided by the age of the records alone.
-/

namespace Crystalline.Pending

section

/-- Instants and durations count the nanoseconds of the store's clock. -/
def seconds (count : Nat) : Nat := count * 1000000000

/-- `PENDING_TTL`. -/
def pendingTtl : Nat := seconds (10 * 60)

/-- `MAX_PENDING`. -/
def maxPending : Nat := 10000

/-- `MIN_EVICT_AGE`. -/
def minEvictAge : Nat := seconds 30

/-- `COMPACT_SLACK`. -/
def compactSlack : Nat := 16

/-- A record the store can age: when the flow it belongs to started. -/
class PendingRecord (Record : Type*) where
  started : Record → Nat

inductive StateMiss where
  | unknown
  | expired
  deriving DecidableEq, Repr

variable {State : Type*} [DecidableEq State] {Record : Type*} [PendingRecord Record]

/-- The round trips in flight, keyed by state. -/
structure PendingStore (State Record : Type*) where
  records : AList fun _ : State => Record
  order : List (Nat × State)
  ttl : Nat

namespace PendingStore

/-- `PendingStore::with_ttl`. -/
def withTtl (ttl : Nat) : PendingStore State Record := ⟨∅, [], ttl⟩

instance : Inhabited (PendingStore State Record) := ⟨withTtl pendingTtl⟩

/-- How many round trips are in flight. -/
def len (store : PendingStore State Record) : Nat := store.records.keys.length

/-- The walk of `purge_expired`: up to the first record still alive. -/
def purgeFrom (ttl : Nat) (now : Nat) (records : AList fun _ : State => Record) :
    List (Nat × State) → PendingStore State Record
  | [] => ⟨records, [], ttl⟩
  | (started, key) :: order =>
      if key ∈ records ∧ now - started < ttl then ⟨records, (started, key) :: order, ttl⟩
      else purgeFrom ttl now (records.erase key) order

/-- `purge_expired`. -/
def purgeExpired (store : PendingStore State Record) (now : Nat) :
    PendingStore State Record :=
  purgeFrom store.ttl now store.records store.order

/-- The sweep of `compact_if_slack`: the whole order, entry by entry. -/
def compactFrom (ttl : Nat) (now : Nat) (records : AList fun _ : State => Record) :
    List (Nat × State) → PendingStore State Record
  | [] => ⟨records, [], ttl⟩
  | (started, key) :: order =>
      if ttl ≤ now - started then compactFrom ttl now (records.erase key) order
      else
        let swept := compactFrom ttl now records order
        if key ∈ records then { swept with order := (started, key) :: swept.order } else swept

/-- `compact_if_slack`. -/
def compactIfSlack (store : PendingStore State Record) (now : Nat) :
    PendingStore State Record :=
  if store.order.length ≤ store.len * 2 + compactSlack then store
  else compactFrom store.ttl now store.records store.order

/-- The loop that makes room in a full map, and whether it found any: the
oldest record goes, unless it is too young to evict. -/
def evictFrom (ttl : Nat) (now : Nat) (records : AList fun _ : State => Record) :
    List (Nat × State) → Bool × PendingStore State Record
  | [] => (true, ⟨records, [], ttl⟩)
  | (started, key) :: order =>
      if records.keys.length < maxPending then (true, ⟨records, (started, key) :: order, ttl⟩)
      else if key ∈ records ∧ now - started < minEvictAge then
        (false, ⟨records, (started, key) :: order, ttl⟩)
      else evictFrom ttl now (records.erase key) order

/-- `insert_at`, and whether it took the record or refused with
`PendingFull`. -/
def insertAt (store : PendingStore State Record) (state : State) (pending : Record)
    (now : Nat) : Bool × PendingStore State Record :=
  let ready := (store.purgeExpired now).compactIfSlack now
  match evictFrom ready.ttl now ready.records ready.order with
  | (false, full) => (false, full)
  | (true, room) =>
      (true, { room with
        order := room.order ++ [(PendingRecord.started pending, state)]
        records := room.records.insert state pending })

/-- `take_at`: looked up before the purge, so that an expired record is
reported as expired. -/
def takeAt (store : PendingStore State Record) (state : State) (now : Nat) :
    Except StateMiss Record × PendingStore State Record :=
  let purged := { store with records := store.records.erase state }.purgeExpired now
  match store.records.lookup state with
  | some pending =>
      if now - PendingRecord.started pending < store.ttl then (.ok pending, purged)
      else (.error .expired, purged)
  | none => (.error .unknown, purged)

end PendingStore

end

variable {State : Type*} [DecidableEq State] {Record : Type*} [PendingRecord Record]
  {records : AList fun _ : State => Record} {order : List (Nat × State)}
  {entry : Nat × State} {ttl now : Nat}

/-- An order that indexes the records. -/
structure Indexed (records : AList fun _ : State => Record) (order : List (Nat × State)) :
    Prop where
  chronological : order.Pairwise fun earlier later => earlier.1 ≤ later.1
  once : (order.map Prod.snd).Nodup
  held : ∀ key record, records.lookup key = some record →
    (PendingRecord.started record, key) ∈ order

namespace Indexed

theorem empty : Indexed (∅ : AList fun _ : State => Record) [] where
  chronological := .nil
  once := List.nodup_nil
  held key record found := by
    rw [AList.lookup_empty] at found
    cases found

variable {record : Record}

section

variable (indexed : Indexed records (entry :: order))
include indexed

theorem front (found : records.lookup entry.2 = some record) :
    PendingRecord.started record = entry.1 := by
  rcases List.mem_cons.mp (indexed.held _ _ found) with here | later
  · exact congrArg Prod.fst here
  · have apart := indexed.once
    rw [List.map_cons, List.nodup_cons] at apart
    exact absurd (List.mem_map_of_mem later) apart.1

theorem front_oldest {key : State} (found : records.lookup key = some record) :
    entry.1 ≤ PendingRecord.started record := by
  have sorted := List.pairwise_cons.mp indexed.chronological
  rcases List.mem_cons.mp (indexed.held _ _ found) with here | later
  · exact le_of_eq (congrArg Prod.fst here).symm
  · exact sorted.1 _ later

theorem tail :
    Indexed (records.erase entry.2) order where
  chronological := (List.pairwise_cons.mp indexed.chronological).2
  once := (List.nodup_cons.mp indexed.once).2
  held key record found := by
    have other : key ≠ entry.2 := by
      rintro rfl
      rw [AList.lookup_erase] at found
      cases found
    rw [AList.lookup_erase_ne other] at found
    rcases List.mem_cons.mp (indexed.held _ _ found) with here | later
    · exact absurd (congrArg Prod.snd here) other
    · exact later

end

section

variable (indexed : Indexed records order)
include indexed

theorem sub {kept : List (Nat × State)} (sublist : kept.Sublist order)
    (covers : ∀ entry ∈ order, entry.2 ∈ records → entry ∈ kept) : Indexed records kept where
  chronological := indexed.chronological.sublist sublist
  once := indexed.once.sublist (sublist.map _)
  held key record found :=
    covers _ (indexed.held key record found) (AList.lookup_isSome.mp (by rw [found]; rfl))

theorem push {state : State} (fresh : ∀ entry ∈ order, entry.2 ≠ state)
    (latest : ∀ entry ∈ order, entry.1 ≤ PendingRecord.started record) :
    Indexed (records.insert state record) (order ++ [(PendingRecord.started record, state)]) where
  chronological := by
    rw [List.pairwise_append]
    exact ⟨indexed.chronological, List.pairwise_singleton _ _, fun earlier member last here => by
      rw [List.mem_singleton.mp here]
      exact latest earlier member⟩
  once := by
    rw [List.map_append, List.nodup_append]
    refine ⟨indexed.once, List.nodup_singleton _, fun key member last here => ?_⟩
    obtain ⟨entry, among, rfl⟩ := List.mem_map.mp member
    rw [List.mem_singleton.mp here]
    exact fresh entry among
  held key other found := by
    by_cases same : key = state
    · subst same
      rw [AList.lookup_insert] at found
      obtain rfl := Option.some.inj found
      exact List.mem_append_right _ List.mem_cons_self
    · rw [AList.lookup_insert_ne same] at found
      exact List.mem_append_left _ (indexed.held key other found)

theorem length_keys_le : records.keys.length ≤ order.length := by
  have within : records.keys ⊆ order.map Prod.snd := by
    intro key member
    obtain ⟨record, found⟩ := Option.isSome_iff_exists.mp
      (AList.lookup_isSome.mpr (AList.mem_keys.mpr member))
    exact List.mem_map_of_mem (indexed.held key record found)
  have counted := (List.subperm_of_subset records.keys_nodup within).length_le
  rwa [List.length_map] at counted

end

end Indexed

namespace PendingStore

/-- What a purge leaves: the records still alive, indexed by the end of the
order. -/
structure Purged (ttl : Nat) (now : Nat) (records : AList fun _ : State => Record)
    (order : List (Nat × State)) (store : PendingStore State Record) : Prop where
  lifetime : store.ttl = ttl
  indexed : Indexed store.records store.order
  suffix : store.order <:+ order
  alive : ∀ key, store.records.lookup key =
    (records.lookup key).filter fun record => now - PendingRecord.started record < ttl
  young : ∀ entry ∈ store.order, now - entry.1 < ttl

theorem purgeFrom_spec (indexed : Indexed records order) :
    Purged ttl now records order (purgeFrom ttl now records order) := by
  induction order generalizing records with
  | nil =>
      refine ⟨rfl, indexed, List.suffix_rfl, fun key => ?_, by simp [purgeFrom]⟩
      cases found : records.lookup key with
      | none => exact found
      | some record => cases indexed.held key record found
  | cons entry order induction =>
      obtain ⟨started, key⟩ := entry
      unfold purgeFrom
      split
      · next live =>
        have age : ∀ instant, started ≤ instant → now - instant < ttl := by
          intro instant later
          have young := live.2
          omega
        refine ⟨rfl, indexed, List.suffix_rfl, fun other => ?_, ?_⟩
        · change records.lookup other = _
          cases found : records.lookup other with
          | none => rfl
          | some record =>
              have young := age _ (indexed.front_oldest found)
              rw [Option.filter_some, if_pos (by simpa using young)]
        · rintro entry member
          rcases List.mem_cons.mp member with rfl | later
          · exact age _ le_rfl
          · exact age _ ((List.pairwise_cons.mp indexed.chronological).1 _ later)
      · next spent =>
        have rest := induction indexed.tail
        refine ⟨rest.lifetime, rest.indexed, rest.suffix.trans (List.suffix_cons _ _), fun other => ?_,
          rest.young⟩
        rw [rest.alive]
        by_cases same : other = key
        · subst same
          rw [AList.lookup_erase]
          cases found : records.lookup other with
          | none => rfl
          | some record =>
              have member : other ∈ records := AList.lookup_isSome.mp (by rw [found]; rfl)
              have old : ¬ now - PendingRecord.started record < ttl := by
                rw [indexed.front found]
                exact fun young => spent ⟨member, young⟩
              rw [Option.filter_some, if_neg (by simpa using old), Option.filter_none]
        · rw [AList.lookup_erase_ne same]

omit [PendingRecord Record] in
theorem compactFrom_young (young : ∀ entry ∈ order, now - entry.1 < ttl) :
    compactFrom ttl now records order =
      ⟨records, order.filter fun entry => entry.2 ∈ records, ttl⟩ := by
  induction order with
  | nil => rfl
  | cons entry order induction =>
      have alive : ¬ ttl ≤ now - entry.1 := by
        have := young entry List.mem_cons_self
        omega
      have rest := induction fun other member => young other (List.mem_cons_of_mem _ member)
      unfold compactFrom
      rw [if_neg alive, rest]
      by_cases held : entry.2 ∈ records
      · rw [if_pos held, List.filter_cons_of_pos (by simpa using held)]
      · rw [if_neg held, List.filter_cons_of_neg (by simpa using held)]

omit [PendingRecord Record] in
theorem keys_length_erase {key : State} (held : key ∈ records) :
    (records.erase key).keys.length = records.keys.length - 1 := by
  rw [AList.keys_erase, List.length_erase_of_mem (AList.mem_keys.mp held)]

omit [DecidableEq State] [PendingRecord Record] in
theorem keys_length_pos {key : State} (held : key ∈ records) : 0 < records.keys.length :=
  List.length_pos_of_mem (AList.mem_keys.mp held)

/-- What the loop for room leaves: nothing too young to evict is gone, and a
refusal leaves every record. -/
structure Roomed (ttl : Nat) (now : Nat) (records : AList fun _ : State => Record)
    (order : List (Nat × State)) (taken : Bool) (store : PendingStore State Record) :
    Prop where
  lifetime : store.ttl = ttl
  indexed : Indexed store.records store.order
  suffix : store.order <:+ order
  only : ∀ key record, store.records.lookup key = some record →
    records.lookup key = some record
  spared : ∀ key record, records.lookup key = some record →
    now - PendingRecord.started record < minEvictAge → store.records.lookup key = some record
  room : taken = true → store.len < maxPending
  full : taken = false → maxPending ≤ store.len ∧
    ∀ key record, records.lookup key = some record →
      now - PendingRecord.started record < minEvictAge

theorem evictFrom_spec (indexed : Indexed records order)
    (bounded : records.keys.length ≤ maxPending) :
    Roomed ttl now records order (evictFrom ttl now records order).1
      (evictFrom ttl now records order).2 := by
  induction order generalizing records with
  | nil =>
      refine ⟨rfl, indexed, List.suffix_rfl, fun _ _ found => found, fun _ _ found _ => found,
        fun _ => ?_, fun refused => by cases refused⟩
      have none := indexed.length_keys_le
      change records.keys.length < maxPending
      unfold maxPending
      rw [List.length_nil] at none
      omega
  | cons entry order induction =>
      obtain ⟨started, key⟩ := entry
      unfold evictFrom
      split
      · next room =>
        exact ⟨rfl, indexed, List.suffix_rfl, fun _ _ found => found, fun _ _ found _ => found,
          fun _ => room, fun refused => by cases refused⟩
      next full =>
      split
      · next young =>
        refine ⟨rfl, indexed, List.suffix_rfl, fun _ _ found => found, fun _ _ found _ => found,
          fun taken => (by cases taken), fun _ => ⟨Nat.not_lt.mp full, fun other record found => ?_⟩⟩
        have oldest : started ≤ PendingRecord.started record := indexed.front_oldest found
        have := young.2
        omega
      · next evictable =>
        have shorter : (records.erase key).keys.length ≤ maxPending := by
          rw [AList.keys_erase]
          exact le_trans List.length_erase_le bounded
        have rest := induction indexed.tail shorter
        refine ⟨rest.lifetime, rest.indexed, rest.suffix.trans (List.suffix_cons _ _),
          fun other record found => ?_, fun other record found young => ?_, rest.room,
          fun refused => ?_⟩
        · have before := rest.only other record found
          by_cases same : other = key
          · subst same
            rw [AList.lookup_erase] at before
            cases before
          · rwa [AList.lookup_erase_ne same] at before
        · have other_ne : other ≠ key := by
            rintro rfl
            refine evictable ⟨AList.lookup_isSome.mp (by rw [found]; rfl), ?_⟩
            have same := indexed.front found
            dsimp only at same
            rwa [← same]
          refine rest.spared other record ?_ young
          rwa [AList.lookup_erase_ne other_ne]
        · -- a live record was evicted, so there is room: only spent entries went
          obtain ⟨still, young⟩ := rest.full refused
          have spent : key ∉ records := by
            intro held
            have fewer := keys_length_erase held
            have some := keys_length_pos held
            change maxPending ≤ (evictFrom ttl now (records.erase key) order).2.len at still
            have within : (evictFrom ttl now (records.erase key) order).2.len ≤
                (records.erase key).keys.length := by
              refine (List.subperm_of_subset (AList.keys_nodup _) fun other member => ?_).length_le
              obtain ⟨record, found⟩ := Option.isSome_iff_exists.mp
                (AList.lookup_isSome.mpr (AList.mem_keys.mpr member))
              refine AList.mem_keys.mp (AList.lookup_isSome.mp ?_)
              rw [rest.only other record found]
              rfl
            omega
          refine ⟨still, fun other record found => young other record ?_⟩
          have other_ne : other ≠ key := by
            rintro rfl
            exact spent (AList.lookup_isSome.mp (by rw [found]; rfl))
          rwa [AList.lookup_erase_ne other_ne]

end PendingStore

end Crystalline.Pending
