import Mathlib.Algebra.BigOperators.Group.List.Basic
import Mathlib.Algebra.Order.Ring.Nat

/-!
# Passes over a keyed store

A pass takes the items of a list one after the other, and each item changes the
store under its own keys alone.  When no key belongs to two items, what the
whole pass leaves under an item's keys is what that item's own step left there.
-/

namespace Crystalline.Keyed

universe u v w x

variable {State : Type u} {Item : Type v} {Key : Type w} {Value : Type x}

/-- The states one after the other while a list of items is passed. -/
inductive Passes (step : State → Item → State → Prop) : State → List Item → State → Prop where
  | nil {state : State} : Passes step state [] state
  | cons {state next last : State} {item : Item} {items : List Item} :
      step state item next → Passes step next items last →
      Passes step state (item :: items) last

namespace Passes

theorem of_foldl (take : State → Item → State) (items : List Item) (state : State) :
    Passes (fun before item after => after = take before item) state items
      (items.foldl take state) := by
  induction items generalizing state with
  | nil => exact .nil
  | cons item items induction => exact .cons rfl (induction _)

theorem of_foldlM {Error : Type*} {take : State → Item → Except Error State}
    {items : List Item} {state last : State} (done : items.foldlM take state = .ok last) :
    Passes (fun before item after => take before item = .ok after) state items last := by
  induction items generalizing state with
  | nil =>
      obtain rfl : state = last := Except.ok.inj done
      exact .nil
  | cons item items induction =>
      rw [List.foldlM_cons] at done
      cases taken : take state item with
      | error error =>
          rw [taken] at done
          cases done
      | ok next =>
          rw [taken] at done
          exact .cons taken (induction done)

variable {step : State → Item → State → Prop} {items : List Item} {state last : State}

theorem keeps (holds : State → Prop)
    (kept : ∀ before item after, item ∈ items → step before item after → holds before →
      holds after)
    (passes : Passes step state items last) (start : holds state) : holds last := by
  induction passes with
  | nil => exact start
  | cons stepped rest induction =>
      exact induction
        (fun before item after member => kept before item after (List.mem_cons_of_mem _ member))
        (kept _ _ _ List.mem_cons_self stepped start)

theorem counts (count : State → Nat) (cost : Item → Nat)
    (grows : ∀ before item after, step before item after →
      count after = count before + cost item)
    (passes : Passes step state items last) :
    count last = count state + (items.map cost).sum := by
  induction passes with
  | nil => simp
  | cons stepped rest induction =>
      rw [induction, grows _ _ _ stepped, List.map_cons, List.sum_cons, Nat.add_assoc]

section Local

variable (view : State → Key → Option Value) (touches : Item → Key → Prop)

section

variable
  (alone : ∀ before item after key, step before item after → ¬ touches item key → view after key = view before key)
  (passes : Passes step state items last)
include alone passes

theorem frame {key : Key} (untouched : ∀ item ∈ items, ¬ touches item key) :
    view last key = view state key := by
  induction passes with
  | nil => rfl
  | cons stepped rest induction =>
      rw [induction fun item member => untouched item (List.mem_cons_of_mem _ member)]
      exact alone _ _ _ _ stepped (untouched _ List.mem_cons_self)

theorem atItem
    (apart : items.Pairwise fun left right => ∀ key, touches left key → ¬ touches right key)
    {item : Item} (member : item ∈ items) :
    ∃ before after, step before item after ∧
      ∀ key, touches item key →
        view before key = view state key ∧ view last key = view after key := by
  induction passes with
  | nil => cases member
  | @cons state next last head tail stepped rest induction =>
      rw [List.pairwise_cons] at apart
      rcases List.mem_cons.mp member with rfl | later
      · refine ⟨state, next, stepped, fun key here => ⟨rfl, ?_⟩⟩
        exact rest.frame view touches alone fun other among => apart.1 other among key here
      · obtain ⟨before, after, taken, held⟩ := induction apart.2 later
        refine ⟨before, after, taken, fun key here => ⟨?_, (held key here).2⟩⟩
        rw [(held key here).1]
        exact alone _ _ _ _ stepped fun first => apart.1 item later key first here

end

end Local

end Passes

end Crystalline.Keyed
