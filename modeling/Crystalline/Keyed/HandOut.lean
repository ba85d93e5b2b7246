import Mathlib.Data.List.Infix
import Mathlib.Data.List.Nodup

/-!
# Handing values out by key

A list of spare values is handed out to a list of takers: a taker that has a
value keeps it, any other gets the first spare value of its key.  Every key is
served in order, whatever the other keys do, so the takers of a key get its
values one after the other.
-/

namespace Crystalline.Keyed

universe u v

variable {Key : Type u} {Value : Type v} [DecidableEq Key]

/-- The first entry of a key, and the entries without it. -/
def takeFirst (key : Key) :
    List (Key × Option Value) → Option (Option Value × List (Key × Option Value))
  | [] => none
  | entry :: entries =>
      if entry.1 = key then some (entry.2, entries)
      else (takeFirst key entries).map fun taken => (taken.1, entry :: taken.2)

/-- What each taker has in the end. -/
def handOut (spare : List (Key × Option Value)) :
    List (Key × Option Value) → List (Option Value)
  | [] => []
  | (_, some value) :: takers => some value :: handOut spare takers
  | (key, none) :: takers =>
      match takeFirst key spare with
      | none => none :: handOut spare takers
      | some (value, rest) => value :: handOut rest takers

/-- The values of a key. -/
def valuesOf (key : Key) (entries : List (Key × Option Value)) : List (Option Value) :=
  (entries.filter fun entry => entry.1 = key).map Prod.snd

/-- A taker of the key that has no value of its own. -/
def asks (key : Key) (taker : Key × Option Value) : Bool :=
  decide (taker.1 = key) && taker.2.isNone

/-- What the takers of a key were given. -/
def answers (key : Key) (takers : List (Key × Option Value)) (given : List (Option Value)) :
    List (Option Value) :=
  ((takers.zip given).filter fun pair => asks key pair.1).map Prod.snd

/-- The first `count` values, nothing in place of those that are missing. -/
def padded (count : Nat) (values : List (Option Value)) : List (Option Value) :=
  (values ++ List.replicate count none).take count

section Taking

variable {key : Key} {entries rest : List (Key × Option Value)} {value : Option Value}

theorem valuesOf_cons (key : Key) (entry : Key × Option Value)
    (entries : List (Key × Option Value)) :
    valuesOf key (entry :: entries) =
      if entry.1 = key then entry.2 :: valuesOf key entries else valuesOf key entries := by
  rw [valuesOf, List.filter_cons]
  by_cases same : entry.1 = key
  · simp [same, valuesOf]
  · simp [same, valuesOf]

theorem valuesOf_append (key : Key) (before after : List (Key × Option Value)) :
    valuesOf key (before ++ after) = valuesOf key before ++ valuesOf key after := by
  rw [valuesOf, List.filter_append, List.map_append]
  rfl

theorem mem_valuesOf {value : Option Value} :
    value ∈ valuesOf key entries ↔ (key, value) ∈ entries := by
  simp only [valuesOf, List.mem_map, List.mem_filter, decide_eq_true_eq]
  constructor
  · rintro ⟨⟨other, held⟩, ⟨member, rfl⟩, rfl⟩
    exact member
  · intro member
    exact ⟨_, ⟨member, rfl⟩, rfl⟩

theorem valuesOf_of_takeFirst_none (absent : takeFirst key entries = none) :
    valuesOf key entries = [] := by
  induction entries with
  | nil => rfl
  | cons entry entries induction =>
      rw [takeFirst] at absent
      split at absent
      · cases absent
      next other =>
        rw [valuesOf_cons, if_neg other]
        exact induction (Option.map_eq_none_iff.mp absent)

section

variable (taken : takeFirst key entries = some (value, rest))
include taken

theorem valuesOf_of_takeFirst :
    valuesOf key entries = value :: valuesOf key rest ∧
      ∀ other, other ≠ key → valuesOf other entries = valuesOf other rest := by
  induction entries generalizing rest with
  | nil => cases taken
  | cons entry entries induction =>
      rw [takeFirst] at taken
      split at taken
      next same =>
        obtain ⟨rfl, rfl⟩ := Prod.mk.inj (Option.some.inj taken)
        refine ⟨by rw [valuesOf_cons, if_pos same], ?_⟩
        intro other apart
        rw [valuesOf_cons, if_neg fun equal => apart (equal.symm.trans same)]
      next different =>
        obtain ⟨⟨found, others⟩, inner, same⟩ := Option.map_eq_some_iff.mp taken
        obtain ⟨rfl, rfl⟩ := Prod.mk.inj same
        obtain ⟨own, elsewhere⟩ := induction inner
        constructor
        · rw [valuesOf_cons, if_neg different, valuesOf_cons, if_neg different, own]
        · intro other apart
          rw [valuesOf_cons, valuesOf_cons, elsewhere other apart]

theorem perm_of_takeFirst : entries.Perm ((key, value) :: rest) := by
  induction entries generalizing rest with
  | nil => cases taken
  | cons entry entries induction =>
      rw [takeFirst] at taken
      split at taken
      next same =>
        obtain ⟨rfl, rfl⟩ := Prod.mk.inj (Option.some.inj taken)
        rw [← same]
      · obtain ⟨⟨found, others⟩, inner, same⟩ := Option.map_eq_some_iff.mp taken
        obtain ⟨rfl, rfl⟩ := Prod.mk.inj same
        exact ((induction inner).cons entry).trans (List.Perm.swap _ _ _)

end

theorem takeFirst_of_absent (absent : ∀ entry ∈ entries, entry.1 ≠ key) :
    takeFirst key entries = none := by
  induction entries with
  | nil => rfl
  | cons entry entries induction =>
      have tail := induction fun other member => absent other (List.mem_cons_of_mem _ member)
      rw [takeFirst, if_neg (absent entry List.mem_cons_self), tail]
      rfl

end Taking

section Padding

variable {values : List (Option Value)}

@[simp] theorem padded_zero (values : List (Option Value)) : padded 0 values = [] := by
  simp [padded]

@[simp] theorem padded_succ_nil (count : Nat) :
    padded (count + 1) ([] : List (Option Value)) = none :: padded count [] := by
  simp [padded, List.replicate_succ]

@[simp] theorem padded_succ_cons (count : Nat) (value : Option Value)
    (values : List (Option Value)) :
    padded (count + 1) (value :: values) = value :: padded count values := by
  simp [padded, List.replicate_succ', ← List.append_assoc]

@[simp] theorem length_padded (count : Nat) (values : List (Option Value)) :
    (padded count values).length = count := by
  simp [padded]

theorem padded_add (first second : Nat) (values : List (Option Value)) :
    padded (first + second) values = padded first values ++ padded second (values.drop first) := by
  induction first generalizing values with
  | zero => simp
  | succ first induction =>
      rw [Nat.succ_add]
      cases values with
      | nil =>
          rw [padded_succ_nil, induction, padded_succ_nil]
          simp
      | cons value values =>
          rw [padded_succ_cons, induction, padded_succ_cons]
          rfl

theorem padded_length_append (before after : List (Option Value)) :
    padded before.length (before ++ after) = before := by
  induction before with
  | nil => simp
  | cons value before induction =>
      rw [List.cons_append, List.length_cons, padded_succ_cons, induction]

theorem mem_padded {count : Nat} {value : Value} (member : some value ∈ padded count values) :
    some value ∈ values.take count := by
  induction count generalizing values with
  | zero => simp at member
  | succ count induction =>
      cases values with
      | nil =>
          rw [padded_succ_nil] at member
          rcases List.mem_cons.mp member with same | member
          · cases same
          · have found := induction member
            simp at found
      | cons held values =>
          rw [padded_succ_cons] at member
          rw [List.take_succ_cons]
          rcases List.mem_cons.mp member with same | member
          · exact List.mem_cons.mpr (.inl same)
          · exact List.mem_cons_of_mem _ (induction member)

end Padding

section Served

variable {spare takers : List (Key × Option Value)} {key : Key} {value : Value}

@[simp] theorem handOut_nil (spare : List (Key × Option Value)) : handOut spare [] = [] := rfl

@[simp] theorem handOut_own (spare takers : List (Key × Option Value)) (key : Key) (value : Value) :
    handOut spare ((key, some value) :: takers) = some value :: handOut spare takers := rfl

theorem handOut_absent (absent : takeFirst key spare = none) (takers : List (Key × Option Value)) :
    handOut spare ((key, none) :: takers) = none :: handOut spare takers := by
  rw [handOut, absent]

variable {given : Option Value} {value : Value}

theorem handOut_taken {rest : List (Key × Option Value)}
    (taken : takeFirst key spare = some (given, rest)) (takers : List (Key × Option Value)) :
    handOut spare ((key, none) :: takers) = given :: handOut rest takers := by
  rw [handOut, taken]

theorem handOut_cons (spare : List (Key × Option Value)) (taker : Key × Option Value) :
    ∃ given rest, ∀ takers, handOut spare (taker :: takers) = given :: handOut rest takers := by
  obtain ⟨key, own⟩ := taker
  cases own with
  | some value => exact ⟨some value, spare, fun takers => handOut_own spare takers key value⟩
  | none =>
      cases taken : takeFirst key spare with
      | none => exact ⟨none, spare, handOut_absent taken⟩
      | some found => exact ⟨found.1, found.2, handOut_taken taken⟩

@[simp] theorem length_handOut (spare takers : List (Key × Option Value)) :
    (handOut spare takers).length = takers.length := by
  induction takers generalizing spare with
  | nil => rfl
  | cons taker takers induction =>
      obtain ⟨given, rest, served⟩ := handOut_cons spare taker
      rw [served, List.length_cons, List.length_cons, induction]

theorem handOut_keeps (member : ((key, some value), given) ∈ takers.zip (handOut spare takers)) :
    given = some value := by
  induction takers generalizing spare with
  | nil => cases member
  | cons taker takers induction =>
      obtain ⟨first, rest, served⟩ := handOut_cons spare taker
      rw [served, List.zip_cons_cons] at member
      rcases List.mem_cons.mp member with same | member
      · obtain ⟨rfl, rfl⟩ := Prod.mk.inj same
        have own := handOut_own spare takers key value
        rw [served] at own
        exact (List.cons.inj own).1
      · exact induction member

/-- Every value that is handed out was a taker's own or a spare one of its key. -/
theorem mem_handOut {taker : Key × Option Value}
    (member : (taker, some value) ∈ takers.zip (handOut spare takers)) :
    taker.2 = some value ∨ taker.2 = none ∧ (taker.1, some value) ∈ spare := by
  induction takers generalizing spare with
  | nil => cases member
  | cons first takers induction =>
      obtain ⟨key, own⟩ := first
      cases own with
      | some held =>
          rw [handOut_own, List.zip_cons_cons] at member
          rcases List.mem_cons.mp member with same | member
          · obtain ⟨rfl, given⟩ := Prod.mk.inj same
            exact .inl given.symm
          · exact induction member
      | none =>
          cases taken : takeFirst key spare with
          | none =>
              rw [handOut_absent taken, List.zip_cons_cons] at member
              rcases List.mem_cons.mp member with same | member
              · cases (Prod.mk.inj same).2
              · exact induction member
          | some found =>
              obtain ⟨given, rest⟩ := found
              have perm := perm_of_takeFirst taken
              rw [handOut_taken taken, List.zip_cons_cons] at member
              rcases List.mem_cons.mp member with same | member
              · obtain ⟨rfl, rfl⟩ := Prod.mk.inj same
                exact .inr ⟨rfl, perm.mem_iff.mpr List.mem_cons_self⟩
              · exact (induction member).imp_right fun found =>
                  ⟨found.1, perm.mem_iff.mpr (List.mem_cons_of_mem _ found.2)⟩

theorem mem_values_handOut (member : some value ∈ handOut spare takers) :
    value ∈ takers.filterMap Prod.snd ∨ value ∈ spare.filterMap Prod.snd := by
  obtain ⟨index, inside, found⟩ := List.mem_iff_getElem.mp member
  have bound : index < takers.length := by rwa [length_handOut] at inside
  have pair : (takers[index], some value) ∈ takers.zip (handOut spare takers) := by
    rw [List.mem_iff_getElem]
    refine ⟨index, by simp [bound], ?_⟩
    rw [List.getElem_zip, found]
  rcases mem_handOut pair with own | ⟨-, taken⟩
  · exact .inl (List.mem_filterMap.mpr ⟨_, List.getElem_mem bound, own⟩)
  · exact .inr (List.mem_filterMap.mpr ⟨_, taken, rfl⟩)

/-- No value is handed out twice. -/
theorem nodup_handOut
    (distinct : (takers.filterMap Prod.snd ++ spare.filterMap Prod.snd).Nodup) :
    ((handOut spare takers).filterMap id).Nodup := by
  induction takers generalizing spare with
  | nil => simp
  | cons first takers induction =>
      obtain ⟨key, own⟩ := first
      cases own with
      | some held =>
          have split : ((key, some held) :: takers).filterMap Prod.snd =
              held :: takers.filterMap Prod.snd := rfl
          rw [split, List.cons_append, List.nodup_cons] at distinct
          rw [handOut_own, List.filterMap_cons_some (by rfl), List.nodup_cons]
          refine ⟨?_, induction distinct.2⟩
          intro again
          apply distinct.1
          have found : some held ∈ handOut spare takers := by simpa using again
          exact List.mem_append.mpr (mem_values_handOut found)
      | none =>
          rw [List.filterMap_cons_none rfl] at distinct
          cases taken : takeFirst key spare with
          | none =>
              rw [handOut_absent taken, List.filterMap_cons_none rfl]
              exact induction distinct
          | some found =>
              obtain ⟨given, rest⟩ := found
              have perm := ((perm_of_takeFirst taken).filterMap Prod.snd).append_left
                (takers.filterMap Prod.snd)
              have apart := perm.nodup_iff.mp distinct
              rw [handOut_taken taken]
              cases given with
              | none =>
                  rw [List.filterMap_cons_none rfl] at apart ⊢
                  exact induction apart
              | some given =>
                  have split : ((key, some given) :: rest).filterMap Prod.snd =
                      given :: rest.filterMap Prod.snd := rfl
                  rw [split, List.nodup_middle, List.nodup_cons] at apart
                  rw [List.filterMap_cons_some (by rfl), List.nodup_cons]
                  refine ⟨?_, induction apart.2⟩
                  intro again
                  apply apart.1
                  have found : some given ∈ handOut rest takers := by simpa using again
                  exact List.mem_append.mpr (mem_values_handOut found)

theorem sublist_handOut (spare takers : List (Key × Option Value)) :
    (takers.filterMap Prod.snd).Sublist ((handOut spare takers).filterMap id) := by
  induction takers generalizing spare with
  | nil => exact List.Sublist.refl _
  | cons taker takers induction =>
      obtain ⟨key, own⟩ := taker
      cases own with
      | some value => exact (induction spare).cons_cons value
      | none =>
          obtain ⟨given, rest, served⟩ := handOut_cons spare (key, none)
          rw [served]
          cases given with
          | none => exact induction rest
          | some given => exact (induction rest).cons given

/-- The takers of a key get its values in order. -/
theorem answers_handOut (key : Key) (spare takers : List (Key × Option Value)) :
    answers key takers (handOut spare takers) =
      padded (takers.countP (asks key)) (valuesOf key spare) := by
  induction takers generalizing spare with
  | nil => simp [answers]
  | cons first takers induction =>
      obtain ⟨other, own⟩ := first
      cases own with
      | some held =>
          have skipped := induction spare
          simpa [answers, asks] using skipped
      | none =>
          cases taken : takeFirst other spare with
          | none =>
              have next := induction spare
              rw [handOut_absent taken]
              by_cases same : other = key
              · subst same
                rw [valuesOf_of_takeFirst_none taken] at next ⊢
                simpa [answers, asks] using next
              · simpa [answers, asks, same] using next
          | some found =>
              obtain ⟨given, rest⟩ := found
              obtain ⟨own, elsewhere⟩ := valuesOf_of_takeFirst taken
              have next := induction rest
              rw [handOut_taken taken]
              by_cases same : other = key
              · subst same
                rw [own]
                simpa [answers, asks] using next
              · rw [elsewhere key fun equal => same equal.symm]
                simpa [answers, asks, same] using next

end Served

section Places

variable {values : List (Option Value)}

/-- A value that is held once has one place. -/
theorem index_of_nodup (distinct : (values.filterMap id).Nodup) {value : Value} {first second : Nat}
    (here : values[first]? = some (some value)) (there : values[second]? = some (some value)) :
    first = second := by
  induction values generalizing first second with
  | nil => simp at here
  | cons head values induction =>
      have tail : (values.filterMap id).Nodup := by
        cases head with
        | none => exact distinct
        | some held => exact (List.nodup_cons.mp distinct).2
      have apart : ∀ place : Nat, values[place]? = some (some value) → head ≠ some value := by
        intro place found same
        subst same
        apply (List.nodup_cons.mp distinct).1
        exact List.mem_filterMap.mpr ⟨_, List.mem_of_getElem? found, rfl⟩
      cases first with
      | zero =>
          cases second with
          | zero => rfl
          | succ second =>
              rw [List.getElem?_cons_zero, Option.some.injEq] at here
              rw [List.getElem?_cons_succ] at there
              exact absurd here (apart second there)
      | succ first =>
          rw [List.getElem?_cons_succ] at here
          cases second with
          | zero =>
              rw [List.getElem?_cons_zero, Option.some.injEq] at there
              exact absurd there (apart first here)
          | succ second =>
              rw [List.getElem?_cons_succ] at there
              rw [induction tail here there]

theorem padded_of_none {count : Nat} (nothing : ∀ value ∈ values.take count, value = none) :
    padded count values = List.replicate count none := by
  rw [List.eq_replicate_iff]
  refine ⟨length_padded count values, ?_⟩
  intro value member
  cases value with
  | none => rfl
  | some value => exact nothing _ (mem_padded member)

/-- What is left after `added` of the values were handed out gives the later
ones back exactly when as many were handed out as were removed, or when there
was nothing to give. -/
theorem padded_eq_iff {removed later : List (Option Value)} {added : Nat}
    (distinct : ((removed ++ later).filterMap id).Nodup) :
    padded later.length ((removed ++ later).drop added) = later ↔
      later = [] ∨ added = removed.length ∨
        (∀ value ∈ later, value = none) ∧
          ∀ value ∈ (removed.drop added).take later.length, value = none := by
  constructor
  · intro same
    by_cases empty : later = []
    · exact .inl empty
    by_cases level : added = removed.length
    · exact .inr (.inl level)
    refine .inr (.inr ?_)
    have nothing : ∀ value ∈ later, value = none := by
      intro value member
      cases value with
      | none => rfl
      | some value =>
          obtain ⟨place, inside, found⟩ := List.mem_iff_getElem.mp member
          have own : (removed ++ later)[removed.length + place]? = some (some value) := by
            rw [List.getElem?_append_right (by omega), Nat.add_sub_cancel_left,
              List.getElem?_eq_getElem inside, found]
          have other : (removed ++ later)[added + place]? = some (some value) := by
            have given : (padded later.length ((removed ++ later).drop added))[place]? =
                some (some value) := by
              rw [same, List.getElem?_eq_getElem inside, found]
            rw [padded, List.getElem?_take_of_lt inside] at given
            by_cases short : place < ((removed ++ later).drop added).length
            · rwa [List.getElem?_append_left short, List.getElem?_drop] at given
            · rw [List.getElem?_append_right (by omega), List.getElem?_replicate] at given
              split at given
              · cases given
              · cases given
          have placed := index_of_nodup distinct own other
          omega
    refine ⟨nothing, ?_⟩
    intro value member
    apply nothing value
    rw [← same, padded]
    have front : (removed.drop added).take later.length <+:
        ((removed ++ later).drop added ++ List.replicate later.length none).take
          later.length := by
      rw [List.drop_append, List.append_assoc]
      exact List.IsPrefix.take (List.prefix_append _ _) _
    exact front.subset member
  · rintro (rfl | rfl | ⟨nothing, gone⟩)
    · simp
    · rw [List.drop_left]
      have exact := padded_length_append later []
      rwa [List.append_nil] at exact
    · have blank : later = List.replicate later.length none :=
        List.eq_replicate_iff.mpr ⟨rfl, nothing⟩
      rw [padded_of_none]
      · exact blank.symm
      · intro value member
        rw [List.drop_append, List.take_append] at member
        rcases List.mem_append.mp member with member | member
        · exact gone value member
        · exact nothing value (List.drop_subset _ _ (List.take_subset _ _ member))

end Places

section Turns

variable {offered : Key × Option Value → Bool} {kept removed later takers : List (Key × Option Value)}

/-- An entry as a taker: one whose value is offered has none of its own. -/
def ownTaker (offered : Key × Option Value → Bool) (entry : Key × Option Value) :
    Key × Option Value :=
  (entry.1, if offered entry then none else entry.2)

/-- An entry that is not offered and has nothing is of a key nothing is offered
of. -/
def Silent (offered : Key × Option Value → Bool) : Prop :=
  ∀ entry, offered entry = false → entry.2 = none →
    ∀ other, offered other = true → other.1 ≠ entry.1

/-- Entries that take first get their own values back. -/
theorem handOut_kept (silent : Silent offered) (kept others takers : List (Key × Option Value)) :
    handOut ((kept ++ others).filter offered) (kept.map (ownTaker offered) ++ takers) =
      kept.map Prod.snd ++ handOut (others.filter offered) takers := by
  induction kept with
  | nil => rfl
  | cons entry kept induction =>
      obtain ⟨key, value⟩ := entry
      cases offers : offered (key, value) with
      | true =>
          have taker : ownTaker offered (key, value) = (key, none) := by
            rw [ownTaker, if_pos offers]
          have taken : takeFirst key ((key, value) :: (kept ++ others).filter offered) =
              some (value, (kept ++ others).filter offered) := by
            rw [takeFirst, if_pos rfl]
          rw [List.cons_append, List.filter_cons_of_pos offers, List.map_cons, taker,
            List.cons_append, handOut_taken taken, induction]
          rfl
      | false =>
          have taker : ownTaker offered (key, value) = (key, value) := by
            rw [ownTaker, offers]
            rfl
          rw [List.cons_append, List.filter_cons_of_neg (by simp [offers]), List.map_cons,
            taker, List.cons_append]
          cases value with
          | some value =>
              rw [handOut_own, induction]
              rfl
          | none =>
              have absent : takeFirst key ((kept ++ others).filter offered) = none := by
                apply takeFirst_of_absent
                intro other member
                exact silent _ offers rfl other (List.mem_filter.mp member).2
              rw [handOut_absent absent, induction]
              rfl

/-- As many are added as removed, or nothing behind them has anything to lose
or to get. -/
def Balanced (offered : Key × Option Value → Bool)
    (removed added later : List (Key × Option Value)) (key : Key) : Prop :=
  let gone := valuesOf key (removed.filter offered)
  let kept := valuesOf key (later.filter offered)
  let count := added.countP (asks key)
  kept = [] ∨ count = gone.length ∨
    (∀ value ∈ kept, value = none) ∧ ∀ value ∈ (gone.drop count).take kept.length, value = none

theorem answers_append {before after : List (Key × Option Value)}
    {given others : List (Option Value)} (length : given.length = before.length) (key : Key) :
    answers key (before ++ after) (given ++ others) =
      answers key before given ++ answers key after others := by
  rw [answers, List.zip_append length.symm, List.filter_append, List.map_append]
  rfl

theorem length_answers {given : List (Option Value)} (length : given.length = takers.length)
    (key : Key) : (answers key takers given).length = takers.countP (asks key) := by
  induction takers generalizing given with
  | nil => simp [answers]
  | cons taker takers induction =>
      cases given with
      | nil => simp at length
      | cons value given =>
          have tail := induction (by simpa using length)
          rw [answers] at tail ⊢
          by_cases asking : asks key taker
          · simpa [asking] using tail
          · simpa [asking] using tail

/-- Two ways of serving takers are the same when every key is served the same. -/
theorem eq_of_answers {given wanted : List (Option Value)}
    (givenLength : given.length = takers.length) (wantedLength : wanted.length = takers.length)
    (givenOwn : ∀ key value got, ((key, some value), got) ∈ takers.zip given → got = some value)
    (wantedOwn : ∀ key value got, ((key, some value), got) ∈ takers.zip wanted →
      got = some value)
    (same : ∀ key, answers key takers given = answers key takers wanted) : given = wanted := by
  induction takers generalizing given wanted with
  | nil =>
      rw [List.eq_nil_of_length_eq_zero givenLength, List.eq_nil_of_length_eq_zero wantedLength]
  | cons taker takers induction =>
      obtain ⟨key, own⟩ := taker
      cases given with
      | nil => simp at givenLength
      | cons got given =>
          cases wanted with
          | nil => simp at wantedLength
          | cons wants wanted =>
              have tail : (∀ key, answers key takers given = answers key takers wanted) →
                  given = wanted := induction (by simpa using givenLength)
                (by simpa using wantedLength)
                (fun key value got member => givenOwn key value got (List.mem_cons_of_mem _ member))
                (fun key value got member => wantedOwn key value got (List.mem_cons_of_mem _ member))
              cases own with
              | some value =>
                  rw [givenOwn key value got List.mem_cons_self,
                    wantedOwn key value wants List.mem_cons_self, tail]
                  intro other
                  have equal := same other
                  simpa [answers, asks] using equal
              | none =>
                  have first : got = wants := by
                    have equal := same key
                    simp only [answers, asks, List.zip_cons_cons, Option.isNone_none,
                      decide_true, Bool.and_self, List.filter_cons_of_pos, List.map_cons,
                      List.cons.injEq] at equal
                    exact equal.1
                  rw [first, tail]
                  intro other
                  have equal := same other
                  by_cases own : key = other
                  · subst own
                    simp only [answers, asks, List.zip_cons_cons, Option.isNone_none,
                      decide_true, Bool.and_self, List.filter_cons_of_pos, List.map_cons,
                      List.cons.injEq] at equal
                    exact equal.2
                  · simpa [answers, asks, own] using equal

theorem answers_own {key : Key} (known : ∃ entry, offered entry = true ∧ entry.1 = key)
    (silent : Silent offered) (later : List (Key × Option Value)) :
    answers key (later.map (ownTaker offered)) (later.map Prod.snd) =
      valuesOf key (later.filter offered) := by
  induction later with
  | nil => rfl
  | cons entry later induction =>
      rw [answers] at induction
      rw [List.map_cons, List.map_cons, answers, List.zip_cons_cons]
      cases offers : offered entry with
      | true =>
          rw [List.filter_cons_of_pos offers, valuesOf_cons]
          by_cases same : entry.1 = key
          · simp [asks, ownTaker, offers, same, ← induction]
          · simp [asks, ownTaker, offers, same, ← induction]
      | false =>
          have rest : (entry :: later).filter offered = later.filter offered :=
            List.filter_cons_of_neg (by simp [offers])
          rw [rest]
          have quiet : asks key (ownTaker offered entry) = false := by
            cases held : entry.2 with
            | some value => simp [asks, ownTaker, offers, held]
            | none =>
                obtain ⟨other, offersOther, named⟩ := known
                have apart := silent entry offers held other offersOther
                rw [named] at apart
                simp [asks, ownTaker, Ne.symm apart]
          rw [← induction, List.filter_cons_of_neg (by simp [quiet])]

section

variable {key : Key} (never : ∀ entry, offered entry = true → entry.1 ≠ key)
include never

theorem answers_unoffered (later : List (Key × Option Value)) :
    ∀ value ∈ answers key (later.map (ownTaker offered)) (later.map Prod.snd),
      value = none := by
  induction later with
  | nil => simp [answers]
  | cons entry later induction =>
      intro value member
      rw [List.map_cons, List.map_cons, answers, List.zip_cons_cons, List.filter_cons] at member
      split at member
      next asking =>
        rcases List.mem_cons.mp member with rfl | member
        · rw [asks, Bool.and_eq_true] at asking
          cases offers : offered entry with
          | true => exact absurd (of_decide_eq_true asking.1) (never entry offers)
          | false => simpa [ownTaker, offers] using asking.2
        · exact induction value member
      · exact induction value member

theorem valuesOf_unoffered (entries : List (Key × Option Value)) :
    valuesOf key (entries.filter offered) = [] := by
  rw [valuesOf, List.map_eq_nil_iff, List.filter_eq_nil_iff]
  intro entry member
  simpa using never entry (List.mem_filter.mp member).2

end

theorem valuesOf_filter_append (key : Key) (before after : List (Key × Option Value)) :
    valuesOf key ((before ++ after).filter offered) =
      valuesOf key (before.filter offered) ++ valuesOf key (after.filter offered) := by
  rw [List.filter_append, valuesOf_append]

theorem nodup_valuesOf
    (distinct : ((removed ++ later).filterMap Prod.snd).Nodup) (key : Key) :
    ((valuesOf key (removed.filter offered) ++
      valuesOf key (later.filter offered)).filterMap id).Nodup := by
  rw [← valuesOf_filter_append, valuesOf, List.filterMap_map]
  apply List.Nodup.sublist _ distinct
  exact ((List.filter_sublist.trans List.filter_sublist).filterMap _)

/-- The takers at the end get their own values back exactly when the takers
before them balance what was removed. -/
theorem handOut_later (silent : Silent offered) (removed added later : List (Key × Option Value))
    (distinct : ((removed ++ later).filterMap Prod.snd).Nodup) :
    (handOut ((removed ++ later).filter offered)
        (added ++ later.map (ownTaker offered))).drop added.length = later.map Prod.snd ↔
      ∀ key, Balanced offered removed added later key := by
  let takers := later.map (ownTaker offered)
  let given := handOut ((removed ++ later).filter offered) (added ++ takers)
  have length : given.length = added.length + takers.length := by
    rw [length_handOut, List.length_append]
  have frontLength : (given.take added.length).length = added.length := by
    rw [List.length_take]
    omega
  have backLength : (given.drop added.length).length = takers.length := by
    rw [List.length_drop]
    omega
  have wantedLength : (later.map Prod.snd).length = takers.length := by
    rw [List.length_map, List.length_map]
  have served : ∀ key, answers key takers (given.drop added.length) =
      padded (takers.countP (asks key)) ((valuesOf key (removed.filter offered) ++
        valuesOf key (later.filter offered)).drop (added.countP (asks key))) := by
    intro key
    have whole := answers_handOut key ((removed ++ later).filter offered) (added ++ takers)
    have cut := @answers_append _ _ _ added takers _ (given.drop added.length) frontLength key
    rw [List.take_append_drop, whole, List.countP_append, padded_add, valuesOf_filter_append] at cut
    have lengths := length_answers frontLength key
    exact (List.append_inj cut (by rw [length_padded, lengths])).2.symm
  have wanted : ∀ key, answers key takers (given.drop added.length) =
      answers key takers (later.map Prod.snd) ↔ Balanced offered removed added later key := by
    intro key
    have count := length_answers wantedLength key
    rw [served key]
    by_cases known : ∃ entry, offered entry = true ∧ entry.1 = key
    · have own := answers_own known silent later
      rw [own] at count ⊢
      rw [← count]
      exact padded_eq_iff (nodup_valuesOf distinct key)
    · have never : ∀ entry, offered entry = true → entry.1 ≠ key :=
        fun entry offers same => known ⟨entry, offers, same⟩
      have nothing := answers_unoffered never later
      rw [Balanced, valuesOf_unoffered never, valuesOf_unoffered never]
      refine iff_of_true ?_ (.inl rfl)
      rw [← count, padded_of_none (by simp)]
      exact (List.eq_replicate_iff.mpr ⟨rfl, nothing⟩).symm
  constructor
  · intro same key
    rw [← wanted key]
    exact congrArg (answers key takers) same
  · intro balanced
    apply eq_of_answers backLength wantedLength
    · intro key value got member
      have whole : ((key, some value), got) ∈ (added ++ takers).zip given := by
        rw [← List.take_append_drop added.length given, List.zip_append frontLength.symm]
        exact List.mem_append_right _ member
      exact handOut_keeps whole
    · intro key value got member
      rw [List.zip_map'] at member
      obtain ⟨entry, -, same⟩ := List.mem_map.mp member
      obtain ⟨own, rfl⟩ := Prod.mk.inj same
      have held := congrArg Prod.snd own
      rw [ownTaker] at held
      split at held
      · cases held
      · exact held
    · intro key
      exact (wanted key).mpr (balanced key)

/-- When the takers at the end are balanced, those before them get removed
values only. -/
theorem handOut_added {removed added later : List (Key × Option Value)}
    (balanced : ∀ key, Balanced offered removed added later key) {taker : Key × Option Value}
    {value : Value}
    (member : (taker, some value) ∈ added.zip ((handOut ((removed ++ later).filter offered)
      (added ++ later.map (ownTaker offered))).take added.length)) :
    taker.2 = some value ∨ (taker.1, some value) ∈ removed := by
  let given := handOut ((removed ++ later).filter offered)
    (added ++ later.map (ownTaker offered))
  have frontLength : (given.take added.length).length = added.length := by
    rw [List.length_take, length_handOut, List.length_append]
    omega
  cases own : taker.2 with
  | some held =>
      have whole : (taker, some value) ∈
          (added ++ later.map (ownTaker offered)).zip given := by
        rw [← List.take_append_drop added.length given, List.zip_append frontLength.symm]
        exact List.mem_append_left _ member
      rcases mem_handOut whole with same | ⟨absent, -⟩
      · exact .inl (own.symm.trans same)
      · rw [own] at absent
        cases absent
  | none =>
      right
      have answered : some value ∈ answers taker.1 added (given.take added.length) := by
        refine List.mem_map.mpr ⟨_, List.mem_filter.mpr ⟨member, ?_⟩, rfl⟩
        simp [asks, own]
      have whole := answers_handOut taker.1 ((removed ++ later).filter offered)
        (added ++ later.map (ownTaker offered))
      have cut := @answers_append _ _ _ added (later.map (ownTaker offered)) _
        (given.drop added.length) frontLength taker.1
      rw [List.take_append_drop, whole, List.countP_append, padded_add,
        valuesOf_filter_append] at cut
      have lengths := length_answers frontLength taker.1
      have front := (List.append_inj cut (by rw [length_padded, lengths])).1
      rw [← front] at answered
      have taken := mem_padded answered
      rw [List.take_append] at taken
      rcases List.mem_append.mp taken with gone | kept
      · have found := mem_valuesOf.mp (List.take_subset _ _ gone)
        exact (List.mem_filter.mp found).1
      · rcases balanced taker.1 with nothing | level | ⟨blank, -⟩
        · rw [nothing] at kept
          simp at kept
        · rw [level, Nat.sub_self] at kept
          simp at kept
        · have absent := blank _ (List.take_subset _ _ kept)
          cases absent

end Turns

end Crystalline.Keyed
