import Mathlib.Algebra.Order.Ring.Nat

/-!
# Union-find with the lowest index as root

A forest of indices whose parents are never above them.  Every index leads to one
root; halving a path keeps the roots, and a union makes the lower of two roots the
root of both trees.
-/

namespace Crystalline.Merging

/-- A forest in which no parent is above its child. -/
structure UnionFind where
  parent : Nat → Nat
  below : ∀ x, parent x ≤ x

namespace UnionFind

variable {forest : UnionFind} {x y a b : Nat}

/-- Every index its own root. -/
def new : UnionFind := ⟨id, fun _ => Nat.le_refl _⟩

/-- The root an index leads to. -/
def root (forest : UnionFind) (x : Nat) : Nat := forest.parent^[x] x

/-- One step of a find: the parent of the parent. -/
def halve (forest : UnionFind) (x : Nat) : UnionFind where
  parent := Function.update forest.parent x (forest.parent (forest.parent x))
  below y := by
    by_cases same : y = x
    · rw [same, Function.update_self]
      exact (forest.below _).trans (forest.below x)
    · rw [Function.update_of_ne same]
      exact forest.below y

/-- `find` with path halving; the index falls with every step. -/
def findFrom : Nat → UnionFind → Nat → UnionFind × Nat
  | 0, forest, x => (forest, x)
  | fuel + 1, forest, x =>
      if forest.parent x = x then (forest, x)
      else findFrom fuel (forest.halve x) ((forest.halve x).parent x)

def find (forest : UnionFind) (x : Nat) : UnionFind × Nat := findFrom x forest x

/-- One root below another. -/
def attach (forest : UnionFind) (child root : Nat) (lower : root ≤ child) : UnionFind where
  parent := Function.update forest.parent child root
  below y := by
    by_cases same : y = child
    · rw [same, Function.update_self]
      exact lower
    · rw [Function.update_of_ne same]
      exact forest.below y

/-- `union`: the lower root stays one. -/
def union (forest : UnionFind) (a b : Nat) : UnionFind :=
  let (first, left) := forest.find a
  let (second, right) := first.find b
  if less : left < right then second.attach right left less.le
  else if less : right < left then second.attach left right less.le
  else second

theorem parent_iterate {count : Nat} (enough : x ≤ count) :
    forest.parent (forest.parent^[count] x) = forest.parent^[count] x := by
  induction count generalizing x with
  | zero =>
      obtain rfl := Nat.le_zero.mp enough
      exact Nat.le_zero.mp (forest.below 0)
  | succ count induction =>
      rw [Function.iterate_succ_apply]
      by_cases isRoot : forest.parent x = x
      · rw [isRoot, Function.iterate_fixed isRoot, isRoot]
      · have lower := forest.below x
        exact induction (by omega)

theorem parent_root (forest : UnionFind) (x : Nat) :
    forest.parent (forest.root x) = forest.root x := parent_iterate (Nat.le_refl x)

theorem root_of_parent_eq (isRoot : forest.parent x = x) : forest.root x = x :=
  Function.iterate_fixed isRoot x

theorem eq_root {value : Nat → Nat} (kept : ∀ y, value (forest.parent y) = value y)
    (fixed : ∀ y, forest.parent y = y → value y = y) (x : Nat) : value x = forest.root x := by
  have iterated : ∀ count, value (forest.parent^[count] x) = value x := by
    intro count
    induction count with
    | zero => rfl
    | succ count induction => rw [Function.iterate_succ_apply', kept, induction]
  rw [← iterated x]
  exact fixed _ (parent_root forest x)

theorem iterate_eq_root {count : Nat} (enough : x ≤ count) :
    forest.parent^[count] x = forest.root x := by
  obtain ⟨more, rfl⟩ := Nat.exists_eq_add_of_le' enough
  rw [Function.iterate_add_apply]
  exact Function.iterate_fixed (parent_root forest x) more

@[simp] theorem root_parent (forest : UnionFind) (x : Nat) :
    forest.root (forest.parent x) = forest.root x := by
  by_cases isRoot : forest.parent x = x
  · rw [isRoot]
  · have lower := forest.below x
    obtain ⟨less, rfl⟩ : ∃ less, x = less + 1 := ⟨x - 1, by omega⟩
    have stepped : forest.root (less + 1) = forest.parent^[less] (forest.parent (less + 1)) := by
      rw [root, Function.iterate_succ_apply]
    rw [stepped, iterate_eq_root (by omega)]

theorem parent_halve_self (forest : UnionFind) (x : Nat) :
    (forest.halve x).parent x = forest.parent (forest.parent x) :=
  Function.update_self x _ _

theorem parent_halve_of_ne (other : y ≠ x) : (forest.halve x).parent y = forest.parent y :=
  Function.update_of_ne other _ _

variable {child top : Nat} {related : Nat → Nat → Prop}

theorem parent_attach_self (lower : top ≤ child) :
    (forest.attach child top lower).parent child = top :=
  Function.update_self child _ _

theorem parent_attach_of_ne (lower : top ≤ child) (other : y ≠ child) :
    (forest.attach child top lower).parent y = forest.parent y :=
  Function.update_of_ne other _ _

theorem root_halve (forest : UnionFind) (x y : Nat) :
    (forest.halve x).root y = forest.root y := by
  refine (@eq_root (forest.halve x) forest.root ?_ ?_ y).symm
  · intro z
    by_cases same : z = x
    · rw [same, parent_halve_self, root_parent, root_parent]
    · rw [parent_halve_of_ne same, root_parent]
  · intro z isRoot
    apply root_of_parent_eq
    by_cases same : z = x
    · rw [same, parent_halve_self] at isRoot
      rw [same]
      have up := forest.below x
      have further := forest.below (forest.parent x)
      omega
    · rwa [parent_halve_of_ne same] at isRoot

theorem findFrom_spec {fuel : Nat} (enough : x ≤ fuel) :
    (findFrom fuel forest x).2 = forest.root x ∧
      ∀ y, (findFrom fuel forest x).1.root y = forest.root y := by
  induction fuel generalizing forest x with
  | zero =>
      obtain rfl := Nat.le_zero.mp enough
      exact ⟨rfl, fun _ => rfl⟩
  | succ fuel induction =>
      rw [findFrom]
      split
      next isRoot => exact ⟨(root_of_parent_eq isRoot).symm, fun _ => rfl⟩
      next inner =>
        have lower : (forest.halve x).parent x ≤ fuel := by
          rw [parent_halve_self]
          have up := forest.below x
          have further := forest.below (forest.parent x)
          omega
        obtain ⟨found, kept⟩ := @induction (forest.halve x) _ lower
        refine ⟨?_, fun y => (kept y).trans (root_halve forest x y)⟩
        rw [found, root_halve, parent_halve_self, root_parent, root_parent]

theorem find_snd (forest : UnionFind) (x : Nat) : (forest.find x).2 = forest.root x :=
  (findFrom_spec (Nat.le_refl x)).1

theorem root_find (forest : UnionFind) (x y : Nat) : (forest.find x).1.root y = forest.root y :=
  (findFrom_spec (Nat.le_refl x)).2 y

theorem root_attach (less : top < child) (isChild : forest.parent child = child)
    (isTop : forest.parent top = top) (y : Nat) :
    (forest.attach child top less.le).root y =
      if forest.root y = child then top else forest.root y := by
  refine (@eq_root (forest.attach child top less.le)
    (fun y => if forest.root y = child then top else forest.root y) ?_ ?_ y).symm
  · intro z
    by_cases same : z = child
    · rw [same, parent_attach_self, root_of_parent_eq isTop, root_of_parent_eq isChild,
        if_pos rfl, if_neg (Nat.ne_of_lt less)]
    · rw [parent_attach_of_ne _ same, root_parent]
  · intro z isRoot
    by_cases same : z = child
    · rw [same, parent_attach_self] at isRoot
      omega
    · rw [parent_attach_of_ne _ same] at isRoot
      rw [root_of_parent_eq isRoot, if_neg same]

/-- A union makes the two roots one. -/
theorem root_union (forest : UnionFind) (a b x : Nat) :
    (forest.union a b).root x =
      if forest.root x = forest.root a ∨ forest.root x = forest.root b then
        min (forest.root a) (forest.root b)
      else forest.root x := by
  have left := find_snd forest a
  have right := (find_snd (forest.find a).1 b).trans (root_find forest a b)
  have kept (y : Nat) : ((forest.find a).1.find b).1.root y = forest.root y :=
    (root_find _ b y).trans (root_find forest a y)
  have isRoot (y : Nat) : ((forest.find a).1.find b).1.parent (forest.root y) = forest.root y := by
    rw [← kept]
    exact parent_root _ y
  rw [union]
  dsimp only
  rw [left, right]
  split
  next less =>
    rw [root_attach less (isRoot b) (isRoot a), kept]
    split <;> split <;> omega
  next =>
    split
    next less =>
      rw [root_attach less (isRoot a) (isRoot b), kept]
      split <;> split <;> omega
    next =>
      rw [kept]
      split <;> omega

/-- The trees are the classes of a relation. -/
def Classes (forest : UnionFind) (related : Nat → Nat → Prop) : Prop :=
  ∀ x y, forest.root x = forest.root y ↔ Relation.EqvGen related x y

theorem new_classes : new.Classes fun _ _ => False := by
  have own (x : Nat) : new.root x = x := root_of_parent_eq rfl
  intro x y
  rw [own, own]
  constructor
  · rintro rfl
    exact .refl x
  · intro generated
    induction generated with
    | rel _ _ related => exact related.elim
    | refl => rfl
    | symm _ _ _ same => exact same.symm
    | trans _ _ _ _ _ first second => exact first.trans second

/-- A union adds one pair to the relation. -/
theorem Classes.union (classes : forest.Classes related) (a b : Nat) :
    (forest.union a b).Classes fun x y => related x y ∨ (x = a ∧ y = b) := by
  have more {x y : Nat} (same : forest.root x = forest.root y) :
      Relation.EqvGen (fun x y => related x y ∨ (x = a ∧ y = b)) x y :=
    Relation.EqvGen.mono (fun _ _ holds => Or.inl holds) x y ((classes x y).mp same)
  have joined : Relation.EqvGen (fun x y => related x y ∨ (x = a ∧ y = b)) a b :=
    .rel _ _ (.inr ⟨rfl, rfl⟩)
  intro x y
  rw [root_union, root_union]
  constructor
  · intro same
    split at same
    next left =>
      split at same
      next right =>
        rcases left with left | left <;> rcases right with right | right
        · exact more (left.trans right.symm)
        · exact .trans _ _ _ (more left) (.trans _ _ _ joined (more right.symm))
        · exact .trans _ _ _ (more left) (.trans _ _ _ joined.symm (more right.symm))
        · exact more (left.trans right.symm)
      next right => omega
    next left =>
      split at same
      next right => omega
      next right => exact more same
  · intro generated
    induction generated with
    | rel x y holds =>
        rcases holds with holds | ⟨rfl, rfl⟩
        · rw [(classes x y).mpr (.rel _ _ holds)]
        · rw [if_pos (.inl rfl), if_pos (.inr rfl)]
    | refl => rfl
    | symm _ _ _ same => exact same.symm
    | trans _ _ _ _ _ first second => exact first.trans second

theorem Classes.foldl_union (classes : forest.Classes related) (pairs : List (Nat × Nat)) :
    (pairs.foldl (fun forest pair => forest.union pair.1 pair.2) forest).Classes fun x y =>
      related x y ∨ (x, y) ∈ pairs := by
  induction pairs generalizing forest related with
  | nil =>
      simpa using classes
  | cons pair pairs induction =>
      have united := induction (classes.union pair.1 pair.2)
      intro x y
      rw [List.foldl_cons, united x y]
      apply iff_of_eq
      congr 1
      funext x y
      rw [List.mem_cons, Prod.ext_iff, or_assoc]

end UnionFind

end Crystalline.Merging
