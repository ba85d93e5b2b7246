import Mathlib.Data.List.AList

/-!
# Tables with a two-part key

A table whose rows are named by two keys together can be read from either side:
every row of one first key, or every row of one second key.  Either reading
holds each row once, so looking a name up in it asks the table itself.
-/

namespace Crystalline.Keyed

universe u v w

section Collect

variable {κ : Type u} {α : Type v} [DecidableEq κ]

/-- A map collected from pairs; a later pair replaces an earlier one. -/
def collect (pairs : List (κ × α)) : AList fun _ : κ => α :=
  pairs.foldl (fun map pair => map.insert pair.1 pair.2) ∅

theorem lookup_foldl_insert (pairs : List (κ × α)) (key : κ) (map : AList fun _ : κ => α)
    (distinct : (pairs.map Prod.fst).Nodup) (value : α) :
    (pairs.foldl (fun map pair => map.insert pair.1 pair.2) map).lookup key = some value ↔
      (key, value) ∈ pairs ∨ key ∉ pairs.map Prod.fst ∧ map.lookup key = some value := by
  induction pairs generalizing map with
  | nil => simp
  | cons pair pairs induction =>
      rw [List.map_cons, List.nodup_cons] at distinct
      rw [List.foldl_cons, induction _ distinct.2]
      by_cases same : key = pair.1
      · subst same
        rw [AList.lookup_insert]
        constructor
        · rintro (later | ⟨absent, held⟩)
          · exact .inl (List.mem_cons_of_mem _ later)
          · obtain rfl := Option.some.inj held
            exact .inl List.mem_cons_self
        · rintro (member | ⟨absent, -⟩)
          · rcases List.mem_cons.mp member with here | later
            · obtain rfl : value = pair.2 := congrArg Prod.snd here
              exact .inr ⟨distinct.1, rfl⟩
            · exact .inl later
          · exact absurd List.mem_cons_self absent
      · rw [AList.lookup_insert_ne same]
        have notHere : (key, value) ≠ pair := fun here => same (congrArg Prod.fst here)
        simp only [List.mem_cons, List.map_cons, notHere, same, false_or]

variable {pairs : List (κ × α)} {key : κ} {value : α}

theorem lookup_collect (distinct : (pairs.map Prod.fst).Nodup) :
    (collect pairs).lookup key = some value ↔ (key, value) ∈ pairs := by
  rw [collect, lookup_foldl_insert pairs key ∅ distinct]
  simp

theorem lookup_collect_perm {left right : List (κ × α)} (perm : left.Perm right)
    (distinct : (left.map Prod.fst).Nodup) (key : κ) :
    (collect left).lookup key = (collect right).lookup key := by
  have distinctRight : (right.map Prod.fst).Nodup := (perm.map Prod.fst).nodup_iff.mp distinct
  refine Option.ext fun value => ?_
  rw [lookup_collect distinct, lookup_collect distinctRight, perm.mem_iff]

theorem mem_of_lookup_foldl_insert {map : AList fun _ : κ => α}
    (found : (pairs.foldl (fun map pair => map.insert pair.1 pair.2) map).lookup key =
      some value) : (key, value) ∈ pairs ∨ map.lookup key = some value := by
  induction pairs generalizing map with
  | nil => exact .inr found
  | cons pair pairs induction =>
      rcases induction found with later | held
      · exact .inl (List.mem_cons_of_mem _ later)
      · by_cases same : key = pair.1
        · subst same
          rw [AList.lookup_insert] at held
          obtain rfl := Option.some.inj held
          exact .inl List.mem_cons_self
        · rw [AList.lookup_insert_ne same] at held
          exact .inr held

theorem mem_of_lookup_collect (found : (collect pairs).lookup key = some value) :
    (key, value) ∈ pairs := by
  rcases mem_of_lookup_foldl_insert found with member | absent
  · exact member
  · rw [AList.lookup_empty] at absent
    cases absent

theorem lookup_collect_of_mem (member : key ∈ pairs.map Prod.fst) :
    ∃ value, (collect pairs).lookup key = some value := by
  have grown : ∀ map : AList fun _ : κ => α, key ∈ pairs.map Prod.fst ∨ key ∈ map →
      key ∈ pairs.foldl (fun map pair => map.insert pair.1 pair.2) map := by
    clear member
    induction pairs with
    | nil =>
        rintro map (absurdity | held)
        · cases absurdity
        · exact held
    | cons pair pairs induction =>
        intro map among
        refine induction (map.insert pair.1 pair.2) ?_
        rw [AList.mem_insert]
        rcases among with member | held
        · rcases List.mem_cons.mp member with here | later
          · exact .inr (.inl here)
          · exact .inl later
        · exact .inr (.inr held)
  exact Option.isSome_iff_exists.mp (AList.lookup_isSome.mpr (grown ∅ (.inl member)))

/-- What a map collected from a reading of rows holds under a key that at most
one row has. -/
theorem lookup_collect_read {β : Type*} (distinct : (pairs.map Prod.fst).Nodup) (read : α → β)
    {held : Option α} (row : ∀ value, (key, value) ∈ pairs ↔ held = some value) :
    (collect (pairs.map fun pair => (pair.1, read pair.2))).lookup key = held.map read := by
  have distinctRead : ((pairs.map fun pair => (pair.1, read pair.2)).map Prod.fst).Nodup := by
    rw [List.map_map]
    exact distinct
  refine Option.ext fun value => ?_
  rw [lookup_collect distinctRead, List.mem_map, Option.map_eq_some_iff]
  constructor
  · rintro ⟨⟨name, inner⟩, member, same⟩
    obtain ⟨rfl, rfl⟩ := Prod.mk.inj same
    exact ⟨inner, (row inner).mp member, rfl⟩
  · rintro ⟨inner, found, rfl⟩
    exact ⟨(key, inner), (row inner).mpr found, rfl⟩

theorem lookup_collect_keys (value : κ → α) (keys : List κ) (key : κ) :
    (collect (keys.map fun key => (key, value key))).lookup key =
      if key ∈ keys then some (value key) else none := by
  have grown : ∀ map : AList fun _ : κ => α,
      ((keys.map fun key => (key, value key)).foldl
        (fun map pair => map.insert pair.1 pair.2) map).lookup key =
          if key ∈ keys then some (value key) else map.lookup key := by
    induction keys with
    | nil => simp
    | cons first keys induction =>
        intro map
        rw [List.map_cons, List.foldl_cons, induction]
        by_cases later : key ∈ keys
        · rw [if_pos later, if_pos (List.mem_cons_of_mem _ later)]
        · rw [if_neg later]
          by_cases same : key = first
          · subst same
            rw [if_pos List.mem_cons_self, AList.lookup_insert]
          · rw [if_neg (by simp [same, later]), AList.lookup_insert_ne same]
  rw [collect, grown]
  simp

/-- A map with every value changed. -/
def mapValues {β : Type w} (change : α → β) (map : AList fun _ : κ => α) :
    AList fun _ : κ => β where
  entries := map.entries.map fun entry => ⟨entry.1, change entry.2⟩
  nodupKeys := by
    have keys : (map.entries.map Sigma.fst).Nodup := map.nodupKeys
    change ((map.entries.map _).map Sigma.fst).Nodup
    rwa [List.map_map]

@[simp] theorem lookup_mapValues {β : Type w} (change : α → β) (map : AList fun _ : κ => α)
    (key : κ) : (mapValues change map).lookup key = (map.lookup key).map change := by
  obtain ⟨entries, distinct⟩ := map
  change List.dlookup (β := fun _ => β) key (entries.map _) =
    (List.dlookup key entries).map change
  clear distinct
  induction entries with
  | nil => rfl
  | cons entry entries induction =>
      obtain ⟨held, value⟩ := entry
      by_cases same : held = key
      · subst same
        simp
      · rw [List.map_cons, List.dlookup_cons_ne _ _ (Ne.symm same),
          List.dlookup_cons_ne _ _ (Ne.symm same), induction]

end Collect

section Table

variable {κ : Type u} {ι : Type v} {α : Type w} [DecidableEq κ] [DecidableEq ι]

/-- Rows named by two keys together. -/
abbrev Table (κ : Type u) (ι : Type v) (α : Type w) := AList fun _ : κ × ι => α

namespace Table

/-- The rows of one first key. -/
def byFirst (table : Table κ ι α) (first : κ) : List (ι × α) :=
  table.entries.filterMap fun row =>
    if row.1.1 = first then some (row.1.2, row.2) else none

/-- The rows of one second key. -/
def bySecond (table : Table κ ι α) (second : ι) : List (κ × α) :=
  table.entries.filterMap fun row =>
    if row.1.2 = second then some (row.1.1, row.2) else none

section

variable {table : Table κ ι α} {first : κ} {second : ι} {value : α}

theorem mem_byFirst :
    (second, value) ∈ table.byFirst first ↔ table.lookup (first, second) = some value := by
  rw [byFirst, List.mem_filterMap]
  constructor
  · rintro ⟨⟨⟨left, right⟩, held⟩, member, found⟩
    split at found
    · next here =>
      obtain ⟨rfl, rfl⟩ := Prod.mk.inj (Option.some.inj found)
      obtain rfl : left = first := here
      exact AList.mem_lookup_iff.mpr member
    · cases found
  · intro found
    exact ⟨⟨(first, second), value⟩, AList.mem_lookup_iff.mp found, if_pos rfl⟩

theorem mem_bySecond :
    (first, value) ∈ table.bySecond second ↔ table.lookup (first, second) = some value := by
  rw [bySecond, List.mem_filterMap]
  constructor
  · rintro ⟨⟨⟨left, right⟩, held⟩, member, found⟩
    split at found
    · next here =>
      obtain ⟨rfl, rfl⟩ := Prod.mk.inj (Option.some.inj found)
      obtain rfl : right = second := here
      exact AList.mem_lookup_iff.mpr member
    · cases found
  · intro found
    exact ⟨⟨(first, second), value⟩, AList.mem_lookup_iff.mp found, if_pos rfl⟩

end

omit [DecidableEq ι] in
theorem distinct_byFirst (table : Table κ ι α) (first : κ) :
    ((table.byFirst first).map Prod.fst).Nodup := by
  rw [byFirst, List.map_filterMap]
  have keys : (table.entries.map Sigma.fst).Nodup := table.nodupKeys
  rw [List.Nodup, List.pairwise_map] at keys
  rw [List.Nodup, List.pairwise_filterMap]
  refine keys.imp ?_
  intro left right apart one isOne other isOther same
  split at isOne
  · next leftHere =>
    split at isOther
    · next rightHere =>
      obtain rfl := Option.some.inj isOne
      obtain rfl := Option.some.inj isOther
      exact apart (Prod.ext (leftHere.trans rightHere.symm) same)
    · cases isOther
  · cases isOne

theorem lookup_collect_byFirst {β : Type*} (table : Table κ ι α) (first : κ) (second : ι)
    (read : α → β) :
    (collect ((table.byFirst first).map fun row => (row.1, read row.2))).lookup second =
      (table.lookup (first, second)).map read := by
  exact lookup_collect_read (table.distinct_byFirst first) read fun _ => mem_byFirst

omit [DecidableEq κ] in
theorem distinct_bySecond (table : Table κ ι α) (second : ι) :
    ((table.bySecond second).map Prod.fst).Nodup := by
  rw [bySecond, List.map_filterMap]
  have keys : (table.entries.map Sigma.fst).Nodup := table.nodupKeys
  rw [List.Nodup, List.pairwise_map] at keys
  rw [List.Nodup, List.pairwise_filterMap]
  refine keys.imp ?_
  intro left right apart one isOne other isOther same
  split at isOne
  · next leftHere =>
    split at isOther
    · next rightHere =>
      obtain rfl := Option.some.inj isOne
      obtain rfl := Option.some.inj isOther
      exact apart (Prod.ext same (leftHere.trans rightHere.symm))
    · cases isOther
  · cases isOne

theorem lookup_collect_bySecond {β : Type*} (table : Table κ ι α) (first : κ) (second : ι)
    (read : α → β) :
    (collect ((table.bySecond second).map fun row => (row.1, read row.2))).lookup first =
      (table.lookup (first, second)).map read :=
  lookup_collect_read (table.distinct_bySecond second) read fun _ => mem_bySecond

theorem lookup_collect_filter_byFirst (table : Table κ ι α) (first : κ) (second : ι)
    (keep : α → Bool) :
    (collect ((table.byFirst first).filter fun row => keep row.2)).lookup second =
      (table.lookup (first, second)).filter keep := by
  have distinct : (((table.byFirst first).filter fun row => keep row.2).map
      Prod.fst).Nodup :=
    (table.distinct_byFirst first).sublist (List.filter_sublist.map Prod.fst)
  refine Option.ext fun value => ?_
  rw [lookup_collect distinct, List.mem_filter, mem_byFirst, Option.filter_eq_some_iff]

theorem find_bySecond (table : Table κ ι α) (first : κ) (second : ι) :
    ((table.bySecond second).find? fun row => row.1 = first).map Prod.snd =
      table.lookup (first, second) := by
  cases found : (table.bySecond second).find? fun row => row.1 = first with
  | some row =>
      obtain ⟨left, value⟩ := row
      have member := List.mem_of_find?_eq_some found
      obtain rfl : left = first := by simpa using List.find?_some found
      exact (mem_bySecond.mp member).symm
  | none =>
      refine (Option.eq_none_iff_forall_ne_some.mpr fun value held => ?_).symm
      have member := mem_bySecond.mpr held
      have unlike := List.find?_eq_none.mp found _ member
      exact unlike (decide_eq_true rfl)

end Table

end Table

end Crystalline.Keyed
