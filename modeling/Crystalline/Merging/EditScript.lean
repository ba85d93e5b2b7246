import Mathlib.Data.List.Basic

/-!
# Edit scripts

A script of operations that turns one list into another: ranges that stay, go, come or are
replaced, in order, which cover both lists.  How a script is found, and how short it is, is
left open.
-/

namespace Crystalline.Merging

/-- An operation with the places and lengths of its ranges in the old and the new list. -/
inductive DiffOp where
  | equal (oldIndex newIndex len : Nat)
  | delete (oldIndex oldLen newIndex : Nat)
  | insert (oldIndex newIndex newLen : Nat)
  | replace (oldIndex oldLen newIndex newLen : Nat)
  deriving DecidableEq

variable {Item : Type}

/-- The operations cover what is left of both lists, from a place in each on. -/
inductive IsScript : (oldAt newAt : Nat) → (old new : List Item) → List DiffOp → Prop
  | done (oldAt newAt : Nat) : IsScript oldAt newAt [] [] []
  | equal {oldAt newAt : Nat} (kept : List Item) {old new : List Item} {ops : List DiffOp}
      (later : IsScript (oldAt + kept.length) (newAt + kept.length) old new ops) :
      IsScript oldAt newAt (kept ++ old) (kept ++ new) (.equal oldAt newAt kept.length :: ops)
  | delete {oldAt newAt : Nat} (gone : List Item) {old new : List Item} {ops : List DiffOp}
      (later : IsScript (oldAt + gone.length) newAt old new ops) :
      IsScript oldAt newAt (gone ++ old) new (.delete oldAt gone.length newAt :: ops)
  | insert {oldAt newAt : Nat} (came : List Item) {old new : List Item} {ops : List DiffOp}
      (later : IsScript oldAt (newAt + came.length) old new ops) :
      IsScript oldAt newAt old (came ++ new) (.insert oldAt newAt came.length :: ops)
  | replace {oldAt newAt : Nat} (gone came : List Item) {old new : List Item}
      {ops : List DiffOp}
      (later : IsScript (oldAt + gone.length) (newAt + came.length) old new ops) :
      IsScript oldAt newAt (gone ++ old) (came ++ new)
        (.replace oldAt gone.length newAt came.length :: ops)

/-- A way to find a script for any two lists. -/
structure Differ (Item : Type) where
  script : (old new : List Item) → List DiffOp
  isScript : ∀ old new, IsScript 0 0 old new (script old new)

/-- How many items two lists start with in common. -/
def commonLength [DecidableEq Item] : (old new : List Item) → Nat
  | first :: old, other :: new => if first = other then commonLength old new + 1 else 0
  | _, _ => 0

theorem take_commonLength [DecidableEq Item] (old new : List Item) :
    new.take (commonLength old new) = old.take (commonLength old new) := by
  fun_induction commonLength old new with
  | case1 old first new induction => exact congrArg (first :: ·) induction
  | case2 => rfl
  | case3 => rfl

theorem isScript_tail (kept gone came : List Item) :
    IsScript 0 0 (kept ++ gone) (kept ++ came)
      [.equal 0 0 kept.length, .replace kept.length gone.length kept.length came.length] := by
  have last : IsScript kept.length kept.length (gone ++ []) (came ++ [])
      [.replace kept.length gone.length kept.length came.length] := .replace gone came (.done _ _)
  rw [List.append_nil, List.append_nil] at last
  refine .equal kept ?_
  rwa [Nat.zero_add]

/-- What two lists start with in common stays, and the rest is replaced. -/
def Differ.tail [DecidableEq Item] : Differ Item where
  script old new :=
    let kept := old.take (commonLength old new)
    let gone := old.drop (commonLength old new)
    let came := new.drop (commonLength old new)
    [.equal 0 0 kept.length, .replace kept.length gone.length kept.length came.length]
  isScript old new := by
    have script := isScript_tail (old.take (commonLength old new))
      (old.drop (commonLength old new)) (new.drop (commonLength old new))
    rwa [List.take_append_drop, ← take_commonLength, List.take_append_drop,
      take_commonLength] at script

end Crystalline.Merging
