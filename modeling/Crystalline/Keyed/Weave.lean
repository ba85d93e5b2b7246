import Mathlib.Data.List.InsertIdx
import Mathlib.Data.List.Nodup

/-!
# Weaving one keyed list into another

`weave leading other` keeps the order of `leading` and places each item whose
key only `other` has behind the item it follows in `other`.  The insertion
point moves with the scan, so the invariant `Woven` relates the items scanned
so far to the order built and to the place the last of them has in it.
-/

namespace Crystalline.Keyed

section Infix

variable {α : Type}

/-- Inserting behind `pivot` separates only a pair that starts with it. -/
theorem pair_infix_insert {left right pivot inserted : α} {front back : List α}
    (different : left ≠ pivot)
    (pair : [left, right] <:+: front ++ pivot :: back) :
    [left, right] <:+: front ++ pivot :: inserted :: back := by
  induction front with
  | nil =>
      rcases List.infix_cons_iff.mp pair with here | later
      · obtain ⟨rest, equality⟩ := here
        exact (different (by simpa using (List.cons.inj equality).1)).elim
      · exact (later.trans (List.suffix_cons inserted back).isInfix).trans
          (List.suffix_cons pivot _).isInfix
  | cons head front ih =>
      rcases List.infix_cons_iff.mp pair with here | later
      · refine List.infix_cons_iff.mpr (Or.inl ?_)
        obtain ⟨rest, equality⟩ := here
        simp only [List.cons_append, List.nil_append, List.cons.injEq] at equality
        obtain ⟨rfl, tail⟩ := equality
        cases front with
        | nil =>
            obtain ⟨rfl, -⟩ := List.cons.inj tail
            exact ⟨inserted :: back, rfl⟩
        | cons next front =>
            obtain ⟨rfl, -⟩ := List.cons.inj tail
            exact ⟨front ++ pivot :: inserted :: back, rfl⟩
      · exact (ih later).trans (List.suffix_cons head _).isInfix

/-- A chain of neighbours stands in one piece. -/
theorem chain_infix {order : List α} (nodup : order.Nodup) {first : α}
    {run : List α} (member : first ∈ order)
    (adjacent : ∀ early left right late,
      first :: run = early ++ left :: right :: late → [left, right] <:+: order) :
    first :: run <:+: order := by
  induction run generalizing first with
  | nil => exact List.infix_iff_prefix_suffix.mpr (by
      obtain ⟨front, back, rfl⟩ := List.append_of_mem member
      exact ⟨first :: back, ⟨back, rfl⟩, ⟨front, rfl⟩⟩)
  | cons next run ih =>
      obtain ⟨front, back, equality⟩ := adjacent [] first next run rfl
      have nextMember : next ∈ order := by simp [← equality]
      obtain ⟨front', back', tail⟩ := ih nextMember
        fun early left right late split =>
          adjacent (first :: early) left right late (by simp [split])
      have sameOrder : front ++ [first] ++ next :: back =
          front' ++ next :: (run ++ back') := by
        simpa using equality.trans tail.symm
      have whole : front ++ [first] ++ next :: back = order := by
        simpa using equality
      rw [← whole] at nodup
      obtain ⟨-, inBack, disjoint⟩ := List.nodup_append'.mp nodup
      obtain ⟨frontEq, -, -⟩ := (List.append_cons_inj_of_notMem
        (fun member => disjoint member (by simp))
        (List.nodup_cons.mp inBack).1).mp sameOrder
      exact ⟨front, back', by simp [← tail, ← frontEq]⟩

theorem insertIdx_length_append (front back : List α) (item : α) :
    (front ++ back).insertIdx front.length item = front ++ item :: back := by
  induction front with
  | nil => cases back <;> rfl
  | cons head front ih => simp [ih]

end Infix

section Weave

variable {Item Key : Type} [DecidableEq Key] (key : Item → Key)

/-- Where the item with key `wanted` stands. -/
def position (wanted : Key) (items : List Item) : Option Nat :=
  items.findIdx? fun item => decide (key item = wanted)

/-- One item of the other list: the order so far and the place of the item
scanned last. -/
def weaveStep (state : List Item × Option Nat) (item : Item) :
    List Item × Option Nat :=
  match position key (key item) state.1 with
  | some here => (state.1, some here)
  | none =>
      let here := state.2.elim 0 (· + 1)
      (state.1.insertIdx here item, some here)

/-- `leading`'s order, with each key only `other` has right after its nearest
preceding key of `other`, or first when it has none. -/
def weave (leading other : List Item) : List Item :=
  (other.foldl (weaveStep key) (leading, none)).1

section

variable {wanted : Key} {items : List Item}

theorem position_eq_none_iff : position key wanted items = none ↔ wanted ∉ items.map key := by
  simp [position, List.findIdx?_eq_none_iff]

theorem position_eq_some {here : Nat} (found : position key wanted items = some here) :
    ∃ front item back, items = front ++ item :: back ∧ front.length = here ∧
      key item = wanted := by
  obtain ⟨bound, holds, -⟩ := List.findIdx?_eq_some_iff_getElem.mp found
  refine ⟨items.take here, items[here], items.drop (here + 1), ?_, by simp; omega,
    by simpa using holds⟩
  rw [← List.drop_eq_getElem_cons bound, List.take_append_drop]

theorem position_cons (wanted : Key) (item : Item) (items : List Item) :
    position key wanted (item :: items) =
      if key item = wanted then some 0 else (position key wanted items).map (· + 1) := by
  simp [position, List.findIdx?_cons]

/-- Of two keys the one that stands first has the smaller place. -/
theorem pair_sublist_iff {items : List Item} (nodup : (items.map key).Nodup) {first second : Key} :
    [first, second].Sublist (items.map key) ↔
      ∃ place next, position key first items = some place ∧
        position key second items = some next ∧ place < next := by
  induction items with
  | nil => simp [position]
  | cons item items induction =>
      rw [List.map_cons, List.nodup_cons] at nodup
      have later := induction nodup.2
      have present : second ∈ items.map key ↔ ∃ next, position key second items = some next := by
        rw [← Option.isSome_iff_exists, ← Option.ne_none_iff_isSome, ne_eq,
          position_eq_none_iff, not_not]
      rw [List.map_cons, position_cons, position_cons]
      by_cases here : key item = first
      · subst here
        have behind : [key item, second].Sublist (key item :: items.map key) ↔
            second ∈ items.map key := by
          rw [List.cons_sublist_cons, List.singleton_sublist]
        rw [behind, if_pos rfl]
        by_cases same : key item = second
        · subst same
          simpa using nodup.1
        · rw [present, if_neg same]
          simp
      · have skips : [first, second].Sublist (key item :: items.map key) ↔
            [first, second].Sublist (items.map key) := by
          refine ⟨fun among => ?_, List.Sublist.cons _⟩
          cases among with
          | cons _ among => exact among
          | cons_cons => exact absurd rfl here
        rw [skips, if_neg here]
        by_cases same : key item = second
        · subst same
          refine iff_of_false (fun among => nodup.1 (among.subset (by simp))) ?_
          simp
        · rw [later, if_neg same]
          simp

/-- Neighbours stand the wrong way round where two places do. -/
theorem windows_any_iff (places : List Nat) :
    ((places.zip places.tail).any fun window => window.1 > window.2) = true ↔
      ∃ place next, [next, place].Sublist places ∧ place < next := by
  have chain : ((places.zip places.tail).any fun window => window.1 > window.2) = false ↔
      places.IsChain (· ≤ ·) := by
    induction places with
    | nil => simp
    | cons first places induction =>
        cases places with
        | nil => simp
        | cons second places =>
            rw [List.isChain_cons_cons, ← induction]
            simp
  rw [← Bool.not_eq_false, chain, List.isChain_iff_pairwise, List.pairwise_iff_forall_sublist]
  simp only [not_forall, Nat.not_le, exists_prop]
  constructor
  · rintro ⟨next, place, among, above⟩
    exact ⟨place, next, among, above⟩
  · rintro ⟨place, next, among, above⟩
    exact ⟨next, place, among, above⟩

end

/-- What holds of the order and of the insertion point once `seen` has been
scanned. -/
structure Woven (leading seen : List Item) (state : List Item × Option Nat) : Prop where
  /-- No key stands twice. -/
  nodup : (state.1.map key).Nodup
  mem_iff : ∀ wanted, wanted ∈ state.1.map key ↔
    wanted ∈ leading.map key ∨ wanted ∈ seen.map key
  leading_sublist : leading.Sublist state.1
  /-- The insertion point is the place of the item scanned last. -/
  cursor : ∀ here, state.2 = some here → ∃ front item back,
    state.1 = front ++ item :: back ∧ front.length = here ∧
      (seen.map key).getLast? = some (key item)
  cursor_none : state.2 = none → seen = []
  /-- A key only the other list has stands directly behind the one it
  follows there. -/
  behind : ∀ early pivot item late, seen = early ++ pivot :: item :: late →
    key item ∉ leading.map key → [key pivot, key item] <:+: state.1.map key
  first : ∀ item late, seen = item :: late → key item ∉ leading.map key →
    [key item] <+: state.1.map key

variable {key}

omit [DecidableEq Key] in
theorem Woven.start {leading : List Item} (nodup : (leading.map key).Nodup) :
    Woven key leading [] (leading, none) where
  nodup := nodup
  mem_iff := by simp
  leading_sublist := List.Sublist.refl _
  cursor := by simp
  cursor_none := by simp
  behind := by simp
  first := by simp

variable {item : Item} {state : List Item × Option Nat} {leading other : List Item}
  {leading seen : List Item} {order : List Item}

/-- Scanning an item whose key stands in the order only moves the insertion
point. -/
theorem Woven.step_found {here : Nat} (woven : Woven key leading seen state)
    (fresh : key item ∉ seen.map key) (found : position key (key item) state.1 = some here) :
    Woven key leading (seen ++ [item]) (state.1, some here) := by
  obtain ⟨front, held, back, shape, length, same⟩ := position_eq_some key found
  have inOrder : key item ∈ state.1.map key := by simp [shape, same]
  have shared : key item ∈ leading.map key :=
    ((woven.mem_iff _).mp inOrder).resolve_right fresh
  refine ⟨woven.nodup, ?_, woven.leading_sublist, ?_, by simp, ?_, ?_⟩
  · intro wanted
    rw [woven.mem_iff]
    constructor
    · rintro (inLeading | inSeen)
      · exact Or.inl inLeading
      · exact Or.inr (by simp only [List.map_append, List.mem_append]; exact Or.inl inSeen)
    · rintro (inLeading | inSeen)
      · exact Or.inl inLeading
      · simp only [List.map_append, List.map_cons, List.map_nil, List.mem_append,
          List.mem_singleton] at inSeen
        rcases inSeen with earlier | rfl
        · exact Or.inr earlier
        · exact Or.inl shared
  · rintro place placeEq
    obtain rfl : here = place := by simpa using placeEq
    exact ⟨front, held, back, shape, length, by simp [same]⟩
  · intro early pivot next late split absent
    rcases List.eq_nil_or_concat late with rfl | ⟨late, last, rfl⟩
    · have shape : early ++ [pivot, next] = (early ++ [pivot]) ++ [next] := by simp
      rw [shape] at split
      obtain ⟨-, sameItem⟩ := List.append_inj' split rfl
      obtain rfl : item = next := by simpa using sameItem
      exact (absent shared).elim
    · have shape : early ++ pivot :: next :: (late ++ [last]) =
          (early ++ pivot :: next :: late) ++ [last] := by simp
      rw [List.concat_eq_append, shape] at split
      exact woven.behind early pivot next late (List.append_inj' split rfl).1 absent
  · intro next late split absent
    cases seen with
    | nil =>
        obtain ⟨rfl, -⟩ := List.cons.inj split
        exact (absent shared).elim
    | cons head seen =>
        obtain ⟨rfl, -⟩ := List.cons.inj split
        exact woven.first head seen rfl absent

omit [DecidableEq Key] in
/-- Inserting behind the item scanned last keeps every pair of neighbours that
does not start with it, and no scanned item has followed it yet. -/
theorem Woven.step_inserted {leading seen front back : List Item} {item pivot : Item}
    (woven : Woven key leading seen (order, some front.length)) (otherNodup : (seen.map key).Nodup)
    (shape : order = front ++ pivot :: back) (last : (seen.map key).getLast? = some (key pivot))
    (absent : key item ∉ order.map key) :
    Woven key leading (seen ++ [item])
      (front ++ pivot :: item :: back, some (front.length + 1)) := by
  subst shape
  have insertedPerm : (front ++ pivot :: item :: back).Perm
      (item :: (front ++ pivot :: back)) := by
    have moved : ((front ++ [pivot]) ++ item :: back).Perm
        (item :: ((front ++ [pivot]) ++ back)) := List.perm_middle
    simpa using moved
  have keysPerm := insertedPerm.map key
  refine ⟨?_, ?_, ?_, ?_, by simp, ?_, ?_⟩
  · rw [keysPerm.nodup_iff, List.map_cons, List.nodup_cons]
    exact ⟨absent, woven.nodup⟩
  · intro wanted
    rw [keysPerm.mem_iff, List.map_cons, List.mem_cons, woven.mem_iff]
    simp only [List.map_append, List.map_cons, List.map_nil, List.mem_append, List.mem_singleton]
    tauto
  · refine woven.leading_sublist.trans ?_
    exact List.Sublist.append (List.Sublist.refl front)
      ((List.sublist_cons_self item back).cons_cons pivot)
  · rintro place placeEq
    obtain rfl : front.length + 1 = place := by simpa using placeEq
    exact ⟨front ++ [pivot], item, back, by simp, by simp, by simp⟩
  · intro early left right late split fresh
    rcases List.eq_nil_or_concat late with rfl | ⟨late, final, rfl⟩
    · have shape : early ++ [left, right] = (early ++ [left]) ++ [right] := by simp
      rw [shape] at split
      obtain ⟨rfl, sameItem⟩ := List.append_inj' split rfl
      obtain rfl : item = right := by simpa using sameItem
      have samePivot : key left = key pivot := by simpa using last
      rw [samePivot]
      exact ⟨front.map key, back.map key, by simp⟩
    · have shape : early ++ left :: right :: (late ++ [final]) =
          (early ++ left :: right :: late) ++ [final] := by simp
      rw [List.concat_eq_append, shape] at split
      have seenEq := (List.append_inj' split rfl).1
      have pair := woven.behind early left right late seenEq fresh
      -- `left` was followed by `right`, so it is not the item scanned last.
      have different : key left ≠ key pivot := by
        intro same
        have nodup := otherNodup
        have ending := last
        rw [seenEq] at nodup ending
        rw [List.map_append, List.getLast?_append_of_ne_nil _ (by simp),
          List.map_cons, List.getLast?_cons_of_ne_nil (by simp)] at ending
        have pivotLater := List.mem_of_getLast? ending
        rw [List.map_append, List.map_cons] at nodup
        exact (List.nodup_cons.mp (List.nodup_append'.mp nodup).2.1).1
          (same ▸ pivotLater)
      simp only [List.map_append, List.map_cons] at pair ⊢
      exact pair_infix_insert different pair
  · intro next late split fresh
    cases seen with
    | nil => simp at last
    | cons head seen =>
        obtain ⟨rfl, -⟩ := List.cons.inj split
        obtain ⟨rest, equality⟩ := woven.first head seen rfl fresh
        cases front with
        | nil =>
            exact ⟨(item :: back).map key, by
              simpa using (List.cons.inj equality).1⟩
        | cons top front =>
            exact ⟨(front ++ pivot :: item :: back).map key, by
              simpa using (List.cons.inj equality).1⟩

theorem Woven.step_first {leading : List Item} (woven : Woven key leading [] (order, none))
    (absent : key item ∉ order.map key) : Woven key leading [item] (item :: order, some 0) := by
  refine ⟨?_, ?_, ?_, ?_, by simp, ?_, ?_⟩
  · exact List.nodup_cons.mpr ⟨absent, woven.nodup⟩
  · intro wanted
    rw [List.map_cons, List.mem_cons, woven.mem_iff]
    simp only [List.map_nil, List.not_mem_nil, or_false, List.map_cons, List.mem_singleton]
    exact or_comm
  · exact woven.leading_sublist.cons item
  · rintro place placeEq
    obtain rfl : 0 = place := by simpa using placeEq
    exact ⟨[], item, order, rfl, rfl, by simp⟩
  · intro early pivot next late split
    have lengths := congrArg List.length split
    simp at lengths
    omega
  · intro next late split _
    obtain ⟨rfl, -⟩ := List.cons.inj split
    exact ⟨order.map key, by simp⟩

theorem Woven.step (woven : Woven key leading seen state)
    (otherNodup : ((seen ++ [item]).map key).Nodup) :
    Woven key leading (seen ++ [item]) (weaveStep key state item) := by
  obtain ⟨order, cursor⟩ := state
  have fresh : key item ∉ seen.map key := by
    rw [List.map_append, List.nodup_append'] at otherNodup
    exact fun member => otherNodup.2.2 member (by simp)
  have seenNodup : (seen.map key).Nodup := by
    rw [List.map_append] at otherNodup
    exact (List.nodup_append'.mp otherNodup).1
  rw [weaveStep]
  cases found : position key (key item) order with
  | some here => exact woven.step_found fresh found
  | none =>
      have absent := (position_eq_none_iff key).mp found
      cases cursor with
      | none =>
          obtain rfl := woven.cursor_none rfl
          simpa using woven.step_first absent
      | some here =>
          obtain ⟨front, pivot, back, rfl, rfl, last⟩ := woven.cursor here rfl
          have place : (front ++ pivot :: back).insertIdx (front.length + 1) item =
              front ++ pivot :: item :: back := by
            have inserted := insertIdx_length_append (front ++ [pivot]) back item
            simpa using inserted
          simp only [Option.elim_some, place]
          exact woven.step_inserted seenNodup rfl last absent

theorem Woven.run (other : List Item) (woven : Woven key leading seen state)
    (otherNodup : ((seen ++ other).map key).Nodup) :
    Woven key leading (seen ++ other) (other.foldl (weaveStep key) state) := by
  induction other generalizing seen state with
  | nil => simpa using woven
  | cons item other ih =>
      have shape : seen ++ item :: other = (seen ++ [item]) ++ other := by simp
      rw [shape] at otherNodup ⊢
      refine ih (woven.step ?_) otherNodup
      rw [List.map_append] at otherNodup
      exact (List.nodup_append'.mp otherNodup).1

theorem weave_woven (leadingNodup : (leading.map key).Nodup) (otherNodup : (other.map key).Nodup) :
    ∃ cursor, Woven key leading other (weave key leading other, cursor) := by
  have woven := Woven.run other (Woven.start leadingNodup) (by simpa using otherNodup)
  rw [List.nil_append] at woven
  exact ⟨_, woven⟩

omit [DecidableEq Key] in
/-- A run of keys only the other list has stands in one piece behind the item
before it. -/
theorem Woven.run_behind (woven : Woven key leading other state) {early run late : List Item}
    {pivot : Item} (split : other = early ++ pivot :: (run ++ late))
    (fresh : ∀ item ∈ run, key item ∉ leading.map key) :
    key pivot :: run.map key <:+: state.1.map key := by
  refine chain_infix woven.nodup ((woven.mem_iff _).mpr (Or.inr (by simp [split]))) ?_
  intro front left right back runSplit
  have mapped : (pivot :: run).map key = front ++ left :: right :: back := by
    simpa using runSplit
  obtain ⟨frontItems, backItems, runEq, rfl, backEq⟩ := List.map_eq_append_iff.mp mapped
  obtain ⟨leftItem, nextItems, rfl, rfl, nextEq⟩ := List.map_eq_cons_iff.mp backEq
  obtain ⟨rightItem, rest, rfl, rfl, rfl⟩ := List.map_eq_cons_iff.mp nextEq
  refine woven.behind (early ++ frontItems) leftItem rightItem (rest ++ late) ?_ ?_
  · have joined := congrArg (fun items => early ++ items ++ late) runEq
    simpa [split] using joined
  · refine fresh rightItem ?_
    cases frontItems with
    | nil =>
        obtain ⟨-, rfl⟩ := List.cons.inj runEq
        simp
    | cons head frontItems =>
        obtain ⟨-, rfl⟩ := List.cons.inj runEq
        simp

omit [DecidableEq Key] in
theorem Woven.run_first (woven : Woven key leading other state) {run late : List Item}
    (split : other = run ++ late) (fresh : ∀ item ∈ run, key item ∉ leading.map key) :
    run.map key <+: state.1.map key := by
  cases run with
  | nil => exact List.nil_prefix
  | cons head run =>
      have behind : other = [] ++ head :: (run ++ late) := by simpa using split
      have inOnePiece := woven.run_behind behind
        fun item member => fresh item (List.mem_cons_of_mem _ member)
      obtain ⟨rest, starts⟩ := woven.first head (run ++ late) (by simpa using split)
        (fresh head (by simp))
      obtain ⟨front, back, equality⟩ := inOnePiece
      have headOnce : front = [] := by
        cases front with
        | nil => rfl
        | cons top front =>
            have nodup := woven.nodup
            rw [← equality] at nodup
            rw [← equality] at starts
            obtain ⟨rfl, -⟩ := List.cons.inj starts
            simp at nodup
      exact ⟨back, by simpa [headOnce] using equality⟩

end Weave

end Crystalline.Keyed
