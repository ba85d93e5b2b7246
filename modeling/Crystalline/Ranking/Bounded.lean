import Mathlib.Data.List.Sort

/-!
# Keeping the best entries of a stream

A bounded list takes each item of a stream into its place and drops what falls
past the limit.  What it ends with is what sorting the whole stream and taking the
first entries gives.
-/

namespace Crystalline.Ranking

variable {α : Type*} {before : α → α → Prop} [DecidableRel before]

section Keep

variable (before)

/-- An item into its place, what falls past the limit dropped. -/
def keep (limit : Nat) (best : List α) (item : α) : List α :=
  (best.orderedInsert before item).take limit

theorem take_orderedInsert_take (limit : Nat) (item : α) (best : List α) :
    ((best.take limit).orderedInsert before item).take limit =
      (best.orderedInsert before item).take limit := by
  induction best generalizing limit with
  | nil => simp
  | cons first best induction =>
      cases limit with
      | zero => simp
      | succ limit =>
          rw [List.take_succ_cons, List.orderedInsert_cons, List.orderedInsert_cons]
          split
          · cases limit with
            | zero => rfl
            | succ limit =>
                rw [List.take_succ_cons, List.take_succ_cons, List.take_succ_cons,
                  List.take_succ_cons, List.take_take, Nat.min_eq_left (Nat.le_succ limit)]
          · rw [List.take_succ_cons, List.take_succ_cons, induction]

theorem foldl_keep (limit : Nat) (items start : List α) :
    items.foldl (keep before limit) (start.take limit) =
      (items.foldl (fun best item => best.orderedInsert before item) start).take limit := by
  induction items generalizing start with
  | nil => rfl
  | cons item items induction =>
      rw [List.foldl_cons, List.foldl_cons, keep, take_orderedInsert_take, induction]

variable {limit : Nat} {best : List α} {item : α}

theorem keep_of_room (room : best.length < limit) :
    keep before limit best item = best.orderedInsert before item :=
  List.take_of_length_le (by rw [List.orderedInsert_length]; exact room)

theorem length_keep_le :
    (keep before limit best item).length ≤ limit := List.length_take_le _ _

variable [Std.Total before] [IsTrans α before]

theorem keep_pairwise (inOrder : best.Pairwise before) :
    (keep before limit best item).Pairwise before :=
  (inOrder.orderedInsert item).sublist (List.take_sublist _ _)

/-- A loop whose body keeps the best entries, as long as they are in order and no
more than the limit. -/
theorem foldl_eq_foldl_keep (body : List α → α → List α)
    (keeps : ∀ best item, best.Pairwise before → best.length ≤ limit →
      body best item = keep before limit best item) (items : List α)
    (inOrder : best.Pairwise before) (bounded : best.length ≤ limit) :
    items.foldl body best = items.foldl (keep before limit) best := by
  induction items generalizing best with
  | nil => rfl
  | cons item items induction =>
      rw [List.foldl_cons, List.foldl_cons, keeps best item inOrder bounded]
      exact induction (keep_pairwise before inOrder) (length_keep_le before)

variable [Std.Antisymm before]

theorem orderedInsert_eq {best sorted : List α} (inOrder : best.Pairwise before)
    (pairwise : sorted.Pairwise before) (perm : sorted.Perm (item :: best)) :
    best.orderedInsert before item = sorted :=
  List.Perm.eq_of_pairwise' (inOrder.orderedInsert item) pairwise
    ((List.perm_orderedInsert before item best).trans perm.symm)

theorem keep_of_full (full : best.length = limit) (inOrder : best.Pairwise before)
    (after : ∀ other ∈ best, before other item) : keep before limit best item = best := by
  have inserted : best.orderedInsert before item = best ++ [item] := by
    apply orderedInsert_eq before inOrder
    · rw [List.pairwise_append]
      exact ⟨inOrder, List.pairwise_singleton _ _, fun other member item' single => by
        rw [List.mem_singleton.mp single]
        exact after other member⟩
    · exact List.perm_append_singleton item best
  rw [keep, inserted, ← full, List.take_left']
  rfl

theorem keep_of_before_last {last item : α} (full : (best ++ [last]).length = limit)
    (inOrder : (best ++ [last]).Pairwise before) (ahead : before item last) :
    keep before limit (best ++ [last]) item = best.orderedInsert before item := by
  obtain ⟨initial, -, behind⟩ := List.pairwise_append.mp inOrder
  have inserted : (best ++ [last]).orderedInsert before item =
      best.orderedInsert before item ++ [last] := by
    apply orderedInsert_eq before inOrder
    · rw [List.pairwise_append]
      refine ⟨initial.orderedInsert item, List.pairwise_singleton _ _, ?_⟩
      intro other member last' single
      rw [List.mem_singleton.mp single]
      rcases (List.mem_orderedInsert before).mp member with rfl | inside
      · exact ahead
      · exact behind other inside last (List.mem_singleton_self last)
    · exact (List.perm_orderedInsert before item best).append_right [last]
  have length : (best.orderedInsert before item).length = limit := by
    rw [List.orderedInsert_length, ← full, List.length_append]
    rfl
  rw [keep, inserted, List.take_left' length]

theorem foldl_orderedInsert (items : List α) :
    items.foldl (fun best item => best.orderedInsert before item) [] =
      items.insertionSort before := by
  have gathered : ∀ start : List α, start.Pairwise before →
      (items.foldl (fun best item => best.orderedInsert before item) start).Perm (start ++ items) ∧
      (items.foldl (fun best item => best.orderedInsert before item) start).Pairwise before := by
    induction items with
    | nil => exact fun start sorted => ⟨by simp, sorted⟩
    | cons item items induction =>
        intro start sorted
        obtain ⟨perm, pairwise⟩ := induction _ (sorted.orderedInsert item)
        refine ⟨perm.trans ?_, pairwise⟩
        exact ((List.perm_orderedInsert before item start).append_right items).trans
          List.perm_middle.symm
  obtain ⟨perm, pairwise⟩ := gathered [] .nil
  exact List.Perm.eq_of_pairwise' pairwise (List.pairwise_insertionSort before items)
    (perm.trans (List.perm_insertionSort before items).symm)

theorem foldl_keep_nil (limit : Nat) (items : List α) :
    items.foldl (keep before limit) [] = (items.insertionSort before).take limit := by
  rw [← foldl_orderedInsert, ← foldl_keep, List.take_nil]

end Keep

section Prefix

variable [Std.Antisymm before]

/-- The first entries of a sorted list are those of its good ones when no other
entry is among them. -/
theorem take_eq_take_filter_iff {sorted : List α} (pairwise : sorted.Pairwise before)
    (good : α → Bool) (limit : Nat) :
    sorted.take limit = (sorted.filter good).take limit ↔
      ∀ item ∈ sorted, good item = false →
        limit ≤ ((sorted.filter good).filter fun other => before other item).length := by
  induction sorted generalizing limit with
  | nil => simp
  | cons first sorted induction =>
      obtain ⟨ahead, pairwise⟩ := List.pairwise_cons.mp pairwise
      cases limit with
      | zero => simp
      | succ limit =>
          cases isGood : good first with
          | true =>
              rw [List.filter_cons_of_pos isGood, List.take_succ_cons, List.take_succ_cons,
                List.cons_inj_right, induction pairwise limit, List.forall_mem_cons]
              have counted : ∀ item ∈ sorted,
                  ((first :: sorted.filter good).filter fun other => before other item).length =
                    ((sorted.filter good).filter fun other => before other item).length + 1 := by
                intro item member
                rw [List.filter_cons_of_pos (by simpa using ahead item member), List.length_cons]
              constructor
              · intro enough
                refine ⟨fun bad => (Bool.false_ne_true (bad.symm.trans isGood)).elim, ?_⟩
                intro item member bad
                rw [counted item member]
                exact Nat.succ_le_succ (enough item member bad)
              · rintro ⟨-, enough⟩ item member bad
                have one := enough item member bad
                rw [counted item member] at one
                exact Nat.le_of_succ_le_succ one
          | false =>
              rw [List.filter_cons_of_neg (by simp [isGood])]
              -- Nothing good comes before the first entry.
              have nothing : ((sorted.filter good).filter fun other => before other first) = [] := by
                apply List.filter_eq_nil_iff.mpr
                intro other member isBefore
                obtain ⟨inside, otherGood⟩ := List.mem_filter.mp member
                have same := antisymm (of_decide_eq_true isBefore) (ahead other inside)
                rw [same, isGood] at otherGood
                cases otherGood
              constructor
              · intro same
                have listed : first ∈ (sorted.filter good).take (limit + 1) := by
                  rw [← same, List.take_succ_cons]
                  exact List.mem_cons_self
                have isGood' := (List.mem_filter.mp (List.mem_of_mem_take listed)).2
                rw [isGood] at isGood'
                cases isGood'
              · intro enough
                have one := enough first List.mem_cons_self isGood
                rw [nothing] at one
                exact absurd one (Nat.not_succ_le_zero limit)

variable [Std.Total before] [IsTrans α before]

theorem filter_insertionSort_total (items : List α) (good : α → Bool) :
    (items.insertionSort before).filter good = (items.filter good).insertionSort before := by
  refine List.Perm.eq_of_pairwise' ?_ (List.pairwise_insertionSort before _)
    (((List.perm_insertionSort before items).filter good).trans
      (List.perm_insertionSort before _).symm)
  exact (List.pairwise_insertionSort before items).sublist List.filter_sublist

/-- Two selections from one list, the second of fewer items. -/
theorem take_insertionSort_filter_eq_iff {items : List α} {passes good : α → Bool}
    (within : ∀ item, good item = true → passes item = true) (limit : Nat) :
    ((items.filter passes).insertionSort before).take limit =
        ((items.filter good).insertionSort before).take limit ↔
      ∀ item ∈ items, passes item = true → good item = false →
        limit ≤ ((items.filter good).filter fun other => before other item).length := by
  have twice : (items.filter passes).filter good = items.filter good := by
    rw [List.filter_filter]
    apply List.filter_congr
    intro item _
    cases isGood : good item with
    | true => rw [within item isGood]; rfl
    | false => rfl
  have selected := take_eq_take_filter_iff
    (List.pairwise_insertionSort before (items.filter passes)) good limit
  rw [filter_insertionSort_total, twice] at selected
  rw [selected]
  constructor
  · intro enough item member pass bad
    have one := enough item ((List.mem_insertionSort before).mpr
      (List.mem_filter.mpr ⟨member, pass⟩)) bad
    rw [(List.perm_insertionSort before _).filter _ |>.length_eq] at one
    exact one
  · intro enough item member bad
    obtain ⟨inside, pass⟩ := List.mem_filter.mp ((List.mem_insertionSort before).mp member)
    rw [(List.perm_insertionSort before _).filter _ |>.length_eq]
    exact enough item inside pass bad

end Prefix

end Crystalline.Ranking
