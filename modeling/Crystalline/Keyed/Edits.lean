import Mathlib.Data.List.ReduceOption
import Mathlib.Data.List.Nodup

/-!
# Edits of a keyed store

An edit sets the value of a key or removes it.  A list of edits with distinct
keys has one meaning whatever its order, and a pass that answers each element of
a list with at most one edit reports distinct keys when the answers do.
-/

namespace Crystalline.Keyed

universe u v w

section Store

variable {Key : Type u} {Value : Type v} [DecidableEq Key]

/-- The store after the edits, in their order; `none` removes. -/
def applied (edits : List (Key × Option Value)) (store : Key → Option Value) :
    Key → Option Value :=
  edits.foldl (fun store edit => Function.update store edit.1 edit.2) store

@[simp] theorem applied_cons (edit : Key × Option Value) (edits : List (Key × Option Value))
    (store : Key → Option Value) :
    applied (edit :: edits) store = applied edits (Function.update store edit.1 edit.2) :=
  rfl

variable {edits : List (Key × Option Value)}

theorem applied_of_not_named {key : Key} (unnamed : key ∉ edits.map Prod.fst)
    (store : Key → Option Value) : applied edits store key = store key := by
  induction edits generalizing store with
  | nil => rfl
  | cons edit edits induction =>
      simp only [List.map_cons, List.mem_cons, not_or] at unnamed
      rw [applied_cons, induction unnamed.2, Function.update_of_ne unnamed.1]

theorem applied_of_mem (distinct : (edits.map Prod.fst).Nodup) {key : Key} {value : Option Value}
    (named : (key, value) ∈ edits) (store : Key → Option Value) :
    applied edits store key = value := by
  induction edits generalizing store with
  | nil => cases named
  | cons edit edits induction =>
      rw [List.map_cons, List.nodup_cons] at distinct
      rw [applied_cons]
      rcases List.mem_cons.mp named with rfl | later
      · rw [applied_of_not_named distinct.1, Function.update_self]
      · exact induction distinct.2 later _

end Store

section Passes

variable {Error : Type u} {Element : Type w} {Edit Key : Type v}

/-- What a pass that may fail reports of one element. -/
def report : Except Error (Option Edit) → Option Edit
  | .ok answer => answer
  | .error _ => none

theorem report_eq_some {answer : Except Error (Option Edit)} {edit : Edit} :
    report answer = some edit ↔ answer = .ok (some edit) := by
  cases answer with
  | ok answer => simp [report]
  | error error => simp [report]

variable {pass : Element → Except Error Edit} {elements : List Element} {answers : List Edit}
  {element : Element}

theorem mapM_ok (succeeded : elements.mapM pass = .ok answers) :
    List.Forall₂ (fun element answer => pass element = .ok answer) elements answers := by
  induction elements generalizing answers with
  | nil =>
      cases succeeded
      exact .nil
  | cons element elements induction =>
      rw [List.mapM_cons] at succeeded
      cases first : pass element with
      | error error =>
          rw [first] at succeeded
          cases succeeded
      | ok answer =>
          cases others : elements.mapM pass with
          | error error =>
              rw [first, others] at succeeded
              cases succeeded
          | ok rest =>
              rw [first, others] at succeeded
              cases succeeded
              exact .cons first (induction others)

theorem reduceOption_of_mapM {pass : Element → Except Error (Option Edit)}
    {answers : List (Option Edit)} (succeeded : elements.mapM pass = .ok answers) :
    answers.reduceOption = elements.filterMap fun element => report (pass element) := by
  have each := mapM_ok succeeded
  clear succeeded
  induction each with
  | nil => rfl
  | @cons element answer elements answers here _ induction =>
      cases answer with
      | none => simp [here, report, induction]
      | some edit => simp [here, report, induction]

theorem mapM_of_ok {answer : Element → Edit}
    (each : ∀ element ∈ elements, pass element = .ok (answer element)) :
    elements.mapM pass = .ok (elements.map answer) := by
  induction elements with
  | nil => rfl
  | cons element elements induction =>
      rw [List.mapM_cons, each element List.mem_cons_self,
        induction fun other member => each other (List.mem_cons_of_mem _ member)]
      rfl

theorem exists_mapM_ok (each : ∀ element ∈ elements, ∃ answer, pass element = .ok answer) :
    ∃ answers, elements.mapM pass = .ok answers := by
  induction elements with
  | nil => exact ⟨[], rfl⟩
  | cons element elements induction =>
      obtain ⟨answer, here⟩ := each element List.mem_cons_self
      obtain ⟨answers, later⟩ :=
        induction fun other member => each other (List.mem_cons_of_mem _ member)
      refine ⟨answer :: answers, ?_⟩
      rw [List.mapM_cons, here, later]
      rfl

theorem ok_of_mapM (succeeded : elements.mapM pass = .ok answers) (member : element ∈ elements) :
    ∃ answer, pass element = .ok answer := by
  have each := mapM_ok succeeded
  clear succeeded
  induction each with
  | nil => cases member
  | @cons head answer elements answers here _ induction =>
      rcases List.mem_cons.mp member with rfl | later
      · exact ⟨answer, here⟩
      · exact induction later

/-- A pass over distinct elements reports distinct keys when no two elements
share one. -/
theorem nodup_reports {pass : Element → Option Edit} {key : Edit → Key} (distinct : elements.Nodup)
    (apart : ∀ first ∈ elements, ∀ second ∈ elements, ∀ one other,
      pass first = some one → pass second = some other → key one = key other →
        first = second) : ((elements.filterMap pass).map key).Nodup := by
  rw [List.Nodup, List.pairwise_map, List.pairwise_filterMap]
  refine List.Pairwise.imp_of_mem ?_ distinct
  intro first second firstMember secondMember different one oneIs other otherIs same
  exact different (apart first firstMember second secondMember one other oneIs otherIs same)

theorem eq_singleton (distinct : elements.Nodup) (member : element ∈ elements)
    (only : ∀ other ∈ elements, other = element) : elements = [element] := by
  obtain ⟨before, after, rfl⟩ := List.append_of_mem member
  rw [List.nodup_middle, List.nodup_cons, List.mem_append, not_or] at distinct
  have empty : ∀ part : List Element, (∀ other ∈ part, other = element) →
      element ∉ part → part = [] := by
    intro part same absent
    cases part with
    | nil => rfl
    | cons head tail =>
        cases same head (by simp)
        exact absurd List.mem_cons_self absent
  rw [empty before (fun other m => only other (by simp [m])) distinct.1.1,
    empty after (fun other m => only other (by simp [m])) distinct.1.2]
  rfl

theorem one_lt_length {first second : Element} (firstMember : first ∈ elements)
    (secondMember : second ∈ elements) (different : first ≠ second) : 1 < elements.length := by
  match elements with
  | [] => cases firstMember
  | [only] =>
      exact absurd ((List.mem_singleton.mp firstMember).trans
        (List.mem_singleton.mp secondMember).symm) different
  | _ :: _ :: _ => simp

end Passes

end Crystalline.Keyed
