import Crystalline.Reflection.IdEdits
import Mathlib.Data.List.Perm.Subperm
import Mathlib.Tactic.IntervalCases

/-!
# Minting section ids

Every `##` heading without an id, or with one that an earlier heading carries,
gets a fresh id.  What is minted depends on the ids of the headings alone, so the
walk over the page is an edit of the id lines that hands the minted ids out.
-/

namespace Crystalline.Reflection

open Text

/-- What the loop over the headings carries. -/
structure Minting where
  /-- The ids no heading may get: those taken, on the page, or minted. -/
  inPage : List Text
  /-- The ids that earlier headings hold. -/
  seen : List Text
  /-- How often `mint` was asked. -/
  asked : Nat

/-- Asking `mint` until an id is fresh; `mint asked` is its next answer. -/
def freshId (mint : Nat → Text) (inPage : List Text) : Nat → Nat → Option (Text × Nat)
  | 0, _ => none
  | fuel + 1, asked =>
      if mint asked ∈ inPage then freshId mint inPage fuel (asked + 1)
      else some (mint asked, asked + 1)

/-- The id a heading keeps: the first heading to carry an id does. -/
def keptId (seen : List Text) (existing : Option Text) : Option Text :=
  existing.filter fun id => id ∉ seen

section Loops

variable (source : Text) (mint : Nat → Text) (fuel : Nat)

/-- The loop of `assign_ids`; the source before `copied` is written. -/
def assignIdsFrom (state : Minting) (copied : Nat) :
    List HeadingSpan → Option (Text × List Text)
  | [] => some (source.drop copied, [])
  | heading :: headings =>
      let existing := idUnder source heading
      match keptId state.seen (existing.map Prod.fst) with
      | some id => assignIdsFrom { state with seen := id :: state.seen } copied headings
      | none =>
          match freshId mint state.inPage fuel state.asked with
          | none => none
          | some (id, asked) =>
              let rest := (existing.map Prod.snd).getD heading.lineEnd
              let state := ⟨id :: state.inPage, id :: state.seen, asked⟩
              (assignIdsFrom state rest headings).map fun made =>
                (headingWithId source copied heading id ++ made.1, id :: made.2)

/-- `assign_ids`: the new source and the minted ids in page order.  Each fresh id
is asked for at most `fuel` times. -/
def assignIds (taken : List Text) : Option (Text × List Text) :=
  let headings := levelTwo source
  let inPage := (headings.filterMap fun heading => (idUnder source heading).map Prod.fst) ++ taken
  assignIdsFrom source mint fuel ⟨inPage, [], 0⟩ 0 headings

/-- The ids minted for headings that carry these ids. -/
def drawIds (state : Minting) : List (Option Text) → Option (List Text)
  | [] => some []
  | existing :: ids =>
      match keptId state.seen existing with
      | some id => drawIds { state with seen := id :: state.seen } ids
      | none =>
          match freshId mint state.inPage fuel state.asked with
          | none => none
          | some (id, asked) =>
              (drawIds ⟨id :: state.inPage, id :: state.seen, asked⟩ ids).map (id :: ·)

end Loops

/-- A heading keeps an id no earlier one holds; any other gets the next of the
minted ids. -/
def assigning : IdPolicy (List Text × List Text) := fun state _ existing =>
  match keptId state.1 existing with
  | some id => (.keep, (id :: state.1, state.2))
  | none =>
      match state.2 with
      | [] => (.keep, state)
      | id :: minted => (.write id, (id :: state.1, minted))

/-- Which headings get a fresh id: those without one, and those whose id an
earlier heading holds. -/
def needsId (seen : List Text) : List (Option Text) → List Bool
  | [] => []
  | existing :: ids =>
      match keptId seen existing with
      | some id => false :: needsId (id :: seen) ids
      | none => true :: needsId seen ids

/-- The id line of a heading goes where the flags say so. -/
def dropping : IdPolicy (List Bool) := fun flags _ _ =>
  match flags with
  | [] => (.keep, [])
  | flag :: flags => (if flag then .drop else .keep, flags)

/-- A page without the id lines of the flagged headings. -/
def withoutIdLinesAt (flags : List Bool) (source : Text) : Text := editIds dropping source flags

theorem assignIdsFrom_eq (source : Text) (mint : Nat → Text) (fuel : Nat)
    (headings : List HeadingSpan) (state : Minting) (copied : Nat) :
    assignIdsFrom source mint fuel state copied headings =
      (drawIds mint fuel state (headings.map fun heading =>
        (idUnder source heading).map Prod.fst)).map fun minted =>
          (editIdsFrom assigning source (state.seen, minted) copied headings, minted) := by
  induction headings generalizing state copied with
  | nil => rfl
  | cons heading headings induction =>
      rw [assignIdsFrom, List.map_cons, drawIds]
      cases kept : keptId state.seen ((idUnder source heading).map Prod.fst) with
      | some id =>
          simp only [induction]
          congr 1
          funext minted
          simp [editIdsFrom, assigning, kept]
      | none =>
          cases freshId mint state.inPage fuel state.asked with
          | none => rfl
          | some drawn =>
              simp only [induction, Option.map_map]
              congr 1
              funext minted
              simp [editIdsFrom, assigning, kept]

section Fresh

variable {mint : Nat → Text} {inPage seen minted : List Text} {ids : List (Option Text)}
  {state : Minting} {fuel : Nat}

/-- `mint` answers with section ids, and from no answer on only with ids of a list
of that size. -/
structure Lasts (mint : Nat → Text) (size : Nat) : Prop where
  valid : ∀ asked, isSectionId (mint asked) = true
  leaves : ∀ ids : List Text, ids.length ≤ size → ∀ asked, ∃ later, asked ≤ later ∧
    mint later ∉ ids

variable {existing : Option Text} {other : List Text}

theorem keptId_eq_some_iff {id : Text} :
    keptId seen existing = some id ↔ existing = some id ∧ id ∉ seen := by
  rw [keptId, Option.filter_eq_some_iff, decide_eq_true_eq]

theorem keptId_congr (same : ∀ id, existing = some id → (id ∈ seen ↔ id ∈ other)) :
    keptId seen existing = keptId other existing := by
  ext id
  rw [keptId_eq_some_iff, keptId_eq_some_iff]
  constructor
  · rintro ⟨found, absent⟩
    exact ⟨found, fun member => absent ((same id found).mpr member)⟩
  · rintro ⟨found, absent⟩
    exact ⟨found, fun member => absent ((same id found).mp member)⟩

theorem freshId_spec {asked : Nat} {drawn : Text × Nat}
    (found : freshId mint inPage fuel asked = some drawn) :
    drawn.1 ∉ inPage ∧ ∃ place, drawn.1 = mint place := by
  induction fuel generalizing asked with
  | zero => cases found
  | succ fuel induction =>
      rw [freshId] at found
      split at found
      · exact induction found
      next fresh =>
        cases found
        exact ⟨fresh, asked, rfl⟩

/-- A fresh answer is found, and more fuel finds the same one. -/
theorem freshId_exists {asked later : Nat} (onward : asked ≤ later) (fresh : mint later ∉ inPage) :
    ∃ enough drawn, ∀ fuel, enough ≤ fuel →
      freshId mint inPage fuel asked = some drawn := by
  obtain ⟨distance, rfl⟩ := Nat.exists_eq_add_of_le onward
  clear onward
  induction distance generalizing asked with
  | zero =>
      rw [Nat.add_zero] at fresh
      refine ⟨1, (mint asked, asked + 1), ?_⟩
      intro fuel enough
      obtain ⟨rest, rfl⟩ := Nat.exists_eq_add_of_le' enough
      rw [freshId, if_neg fresh]
  | succ distance induction =>
      by_cases used : mint asked ∈ inPage
      · have shifted : asked + (distance + 1) = asked + 1 + distance := by omega
        rw [shifted] at fresh
        obtain ⟨enough, drawn, draws⟩ := induction fresh
        refine ⟨enough + 1, drawn, ?_⟩
        intro fuel more
        obtain ⟨rest, rfl⟩ := Nat.exists_eq_add_of_le' more
        rw [← Nat.add_assoc, freshId, if_pos used]
        exact draws _ (by omega)
      · refine ⟨1, (mint asked, asked + 1), ?_⟩
        intro fuel enough
        obtain ⟨rest, rfl⟩ := Nat.exists_eq_add_of_le' enough
        rw [freshId, if_neg used]

theorem needsId_congr (same : ∀ id, some id ∈ ids → (id ∈ seen ↔ id ∈ other)) :
    needsId seen ids = needsId other ids := by
  induction ids generalizing seen other with
  | nil => rfl
  | cons existing ids induction =>
      have here : keptId seen existing = keptId other existing := by
        apply keptId_congr
        rintro id rfl
        exact same id List.mem_cons_self
      rw [needsId, needsId, here]
      cases kept : keptId other existing with
      | none =>
          simp only
          rw [induction fun id member => same id (List.mem_cons_of_mem _ member)]
      | some id =>
          simp only
          rw [induction]
          intro later member
          rw [List.mem_cons, List.mem_cons, same later (List.mem_cons_of_mem _ member)]

theorem needsId_cons {id : Text} (absent : some id ∉ ids) :
    needsId (id :: seen) ids = needsId seen ids := by
  apply needsId_congr
  intro other member
  rw [List.mem_cons]
  constructor
  · rintro (rfl | held)
    · exact absurd member absent
    · exact held
  · exact Or.inr

/-- The minted ids: distinct answers of `mint`, none of them used before, one for
each heading that needs one. -/
structure Drawn (mint : Nat → Text) (inPage seen : List Text) (ids : List (Option Text))
    (minted : List Text) : Prop where
  distinct : minted.Nodup
  fresh : ∀ id ∈ minted, id ∉ inPage
  answers : ∀ id ∈ minted, ∃ place, id = mint place
  count : minted.length = (needsId seen ids).count true

theorem drawIds_spec (present : ∀ id, some id ∈ ids → id ∈ state.inPage)
    (drawn : drawIds mint fuel state ids = some minted) :
    Drawn mint state.inPage state.seen ids minted := by
  induction ids generalizing state minted with
  | nil =>
      cases drawn
      exact ⟨List.nodup_nil, by simp, by simp, rfl⟩
  | cons existing ids induction =>
      have later : ∀ id, some id ∈ ids → id ∈ state.inPage :=
        fun id member => present id (List.mem_cons_of_mem _ member)
      rw [drawIds] at drawn
      cases kept : keptId state.seen existing with
      | some id =>
          rw [kept] at drawn
          have rest := @induction minted { state with seen := id :: state.seen } later drawn
          refine ⟨rest.distinct, rest.fresh, rest.answers, ?_⟩
          rw [rest.count, needsId, kept, List.count_cons_of_ne (by decide)]
      | none =>
          rw [kept] at drawn
          cases found : freshId mint state.inPage fuel state.asked with
          | none =>
              rw [found] at drawn
              cases drawn
          | some first =>
              obtain ⟨id, asked⟩ := first
              rw [found] at drawn
              obtain ⟨more, draws, rfl⟩ := Option.map_eq_some_iff.mp drawn
              obtain ⟨fresh, place⟩ := freshId_spec found
              have rest := @induction more ⟨id :: state.inPage, id :: state.seen, asked⟩
                (fun other member => List.mem_cons_of_mem _ (later other member)) draws
              refine ⟨?_, ?_, ?_, ?_⟩
              · rw [List.nodup_cons]
                exact ⟨fun member => rest.fresh id member List.mem_cons_self, rest.distinct⟩
              · intro other member
                rcases List.mem_cons.mp member with rfl | member
                · exact fresh
                · exact fun used => rest.fresh other member (List.mem_cons_of_mem _ used)
              · intro other member
                rcases List.mem_cons.mp member with rfl | member
                · exact place
                · exact rest.answers other member
              · rw [List.length_cons, rest.count, needsId, kept, List.count_cons_self,
                  needsId_cons fun member => fresh (later id member)]

/-- A supply that lasts for what is used and the headings answers every time. -/
theorem drawIds_exists {size : Nat} (lasts : Lasts mint size)
    (room : state.inPage.length + ids.length ≤ size) :
    ∃ enough minted, ∀ fuel, enough ≤ fuel → drawIds mint fuel state ids = some minted := by
  induction ids generalizing state with
  | nil => exact ⟨0, [], fun _ _ => rfl⟩
  | cons existing ids induction =>
      rw [List.length_cons] at room
      cases kept : keptId state.seen existing with
      | some id =>
          obtain ⟨enough, minted, draws⟩ :=
            @induction { state with seen := id :: state.seen } (by simp only; omega)
          refine ⟨enough, minted, ?_⟩
          intro fuel more
          rw [drawIds, kept]
          exact draws fuel more
      | none =>
          obtain ⟨place, onward, fresh⟩ :=
            lasts.leaves state.inPage (by omega) state.asked
          obtain ⟨some, ⟨id, asked⟩, found⟩ := freshId_exists onward fresh
          obtain ⟨enough, minted, draws⟩ :=
            @induction ⟨id :: state.inPage, id :: state.seen, asked⟩ (by simp; omega)
          refine ⟨max some enough, id :: minted, ?_⟩
          intro fuel more
          rw [drawIds, kept, found fuel (by omega)]
          simp only
          rw [draws fuel (by omega), Option.map_some]

end Fresh

section Carried

variable {seen minted : List Text} {headings : List (Text × Option Text)} {text id : Text}
  {existing : Option Text}

theorem sound_assigning : assigning.Sound fun state => ∀ id ∈ state.2, isSectionId id = true := by
  constructor
  · intro state text existing id later valid decided
    rw [assigning] at decided
    split at decided
    · cases decided
    · split at decided
      · cases decided
      next first minted left =>
        cases decided
        exact valid id (by rw [left]; exact List.mem_cons_self)
  · intro state text existing edit later valid decided
    rw [assigning] at decided
    split at decided
    · cases decided
      exact valid
    · split at decided
      · cases decided
        exact valid
      next first minted left =>
        cases decided
        intro id member
        exact valid id (by rw [left]; exact List.mem_cons_of_mem _ member)

theorem assigning_keeps (state : List Text × List Text) (text : Text) (existing : Option Text) :
    (assigning state text existing).1 ≠ .drop := by
  rw [assigning]
  split
  · exact fun dropped => by cases dropped
  · split <;> exact fun dropped => by cases dropped

theorem editedIds_kept (kept : keptId seen existing = some id) :
    editedIds assigning (seen, minted) ((text, existing) :: headings) =
      (text, some id) :: editedIds assigning (id :: seen, minted) headings := by
  rw [editedIds, assigning, kept, (keptId_eq_some_iff.mp kept).1]

theorem editedIds_minted (asks : keptId seen existing = none) :
    editedIds assigning (seen, id :: minted) ((text, existing) :: headings) =
      (text, some id) :: editedIds assigning (id :: seen, minted) headings := by
  rw [editedIds, assigning, asks]

/-- The values under the flags that are set. -/
def flagged {Value : Type} (flags : List Bool) (values : List Value) : List Value :=
  ((values.zip flags).filter Prod.snd).map Prod.fst

/-- The minted ids that are left when the walk reaches some headings. -/
structure Left (seen minted : List Text) (ids : List (Option Text)) : Prop where
  distinct : minted.Nodup
  unseen : ∀ id ∈ minted, id ∉ seen
  absent : ∀ id ∈ minted, some id ∉ ids
  count : minted.length = (needsId seen ids).count true

section

variable {ids : List (Option Text)} (left : Left seen minted (existing :: ids))
include left

theorem Left.kept (kept : keptId seen existing = some id) : Left (id :: seen) minted ids := by
  obtain ⟨rfl, -⟩ := keptId_eq_some_iff.mp kept
  refine ⟨left.distinct, ?_, ?_, ?_⟩
  · intro other member seen
    rcases List.mem_cons.mp seen with rfl | seen
    · exact left.absent other member List.mem_cons_self
    · exact left.unseen other member seen
  · exact fun other member present => left.absent other member (List.mem_cons_of_mem _ present)
  · rw [left.count, needsId, kept, List.count_cons_of_ne (by decide)]

theorem Left.asks (asks : keptId seen existing = none) :
    ∃ id rest, minted = id :: rest ∧ Left (id :: seen) rest ids := by
  have count := left.count
  rw [needsId, asks, List.count_cons_self] at count
  cases minted with
  | nil => simp at count
  | cons id rest =>
      obtain ⟨fresh, distinct⟩ := List.nodup_cons.mp left.distinct
      refine ⟨id, rest, rfl, distinct, ?_, ?_, ?_⟩
      · intro other member used
        rcases List.mem_cons.mp used with rfl | used
        · exact fresh member
        · exact left.unseen other (List.mem_cons_of_mem _ member) used
      · intro other member present
        exact left.absent other (List.mem_cons_of_mem _ member) (List.mem_cons_of_mem _ present)
      · rw [List.length_cons, Nat.add_right_cancel_iff] at count
        rw [count, needsId_cons fun member =>
          left.absent id List.mem_cons_self (List.mem_cons_of_mem _ member)]

end

/-- What the headings carry after the ids were handed out. -/
structure Carried (seen minted : List Text) (before after : List (Text × Option Text)) :
    Prop where
  texts : after.map Prod.fst = before.map Prod.fst
  every : ∀ heading ∈ after, heading.2.isSome = true
  distinct : (after.map Prod.snd).Nodup
  unseen : ∀ id ∈ seen, some id ∉ after.map Prod.snd
  places : flagged (needsId seen (before.map Prod.snd)) (after.map Prod.snd) = minted.map some
  keeps : ∀ earlier text id later, before = earlier ++ (text, some id) :: later → id ∉ seen →
    some id ∉ earlier.map Prod.snd → after[earlier.length]? = some (text, some id)

theorem carried_editedIds (left : Left seen minted (headings.map Prod.snd)) :
    Carried seen minted headings (editedIds assigning (seen, minted) headings) := by
  induction headings generalizing seen minted with
  | nil =>
      have none := left.count
      simp only [List.map_nil, needsId, List.count_nil, List.length_eq_zero_iff] at none
      subst none
      exact ⟨rfl, by simp [editedIds], List.nodup_nil, by simp [editedIds], rfl, by simp⟩
  | cons heading headings induction =>
      obtain ⟨text, existing⟩ := heading
      rw [List.map_cons] at left
      -- The heading holds `id` afterwards, and it is seen from here on.
      have step : ∀ id rest, (∀ other, existing = some other → other ∉ seen → other = id) →
          Carried (id :: seen) rest headings (editedIds assigning (id :: seen, rest) headings) →
          id ∉ seen → (existing = some id ∨ some id ∉ headings.map Prod.snd) →
          flagged (needsId seen (existing :: headings.map Prod.snd))
            (some id :: (editedIds assigning (id :: seen, rest) headings).map Prod.snd) =
              minted.map some →
          Carried seen minted ((text, existing) :: headings)
            ((text, some id) :: editedIds assigning (id :: seen, rest) headings) := by
        intro id rest own onward unseen once places
        refine ⟨?_, ?_, ?_, ?_, places, ?_⟩
        · rw [List.map_cons, List.map_cons, onward.texts]
        · intro heading member
          rcases List.mem_cons.mp member with rfl | member
          · rfl
          · exact onward.every heading member
        · rw [List.map_cons, List.nodup_cons]
          exact ⟨onward.unseen id List.mem_cons_self, onward.distinct⟩
        · intro other held member
          rw [List.map_cons] at member
          rcases List.mem_cons.mp member with same | member
          · cases same
            exact unseen held
          · exact onward.unseen other (List.mem_cons_of_mem _ held) member
        · rintro earlier first found later whole absent free
          cases earlier with
          | nil =>
              obtain ⟨same, -⟩ := List.cons.inj whole
              obtain ⟨rfl, held⟩ := Prod.mk.inj same
              rw [own found held absent]
              rfl
          | cons other earlier =>
              obtain ⟨rfl, behind⟩ := List.cons.inj whole
              rw [List.map_cons, List.mem_cons, not_or] at free
              rw [List.length_cons, List.getElem?_cons_succ]
              by_cases same : found = id
              · subst same
                rcases once with rfl | absent
                · exact absurd rfl free.1
                · rw [behind] at absent
                  exact absurd (by simp) absent
              · refine onward.keeps earlier first found later behind ?_ free.2
                rw [List.mem_cons, not_or]
                exact ⟨same, absent⟩
      cases kept : keptId seen existing with
      | some id =>
          obtain ⟨rfl, unseen⟩ := keptId_eq_some_iff.mp kept
          have onward := induction (left.kept kept)
          rw [editedIds_kept kept]
          refine step id minted ?_ onward unseen (.inl rfl) ?_
          · rintro other same -
            exact (Option.some.inj same).symm
          · rw [needsId, kept]
            exact onward.places
      | none =>
          obtain ⟨id, rest, rfl, after⟩ := left.asks kept
          have onward := induction after
          rw [editedIds_minted kept]
          have absent : some id ∉ headings.map Prod.snd := fun member =>
            left.absent id List.mem_cons_self (List.mem_cons_of_mem _ member)
          refine step id rest ?_ onward (left.unseen id List.mem_cons_self) (.inr absent) ?_
          · intro other same absent
            rw [keptId_eq_some_iff.mpr ⟨same, absent⟩] at kept
            cases kept
          · rw [needsId, kept, List.map_cons, ← onward.places, needsId_cons absent]
            rfl

end Carried

section Untouched

variable {State : Type} {policy : IdPolicy State} {source raw text : Text}
  {fence : FenceTracker} {lines : List Text}

/-- Which headings an edit writes an id line under. -/
def writtenAt (policy : IdPolicy State) (state : State) :
    List (Text × Option Text) → List Bool
  | [] => []
  | (text, existing) :: headings =>
      match policy state text existing with
      | (.write _, state) => true :: writtenAt policy state headings
      | (_, state) => false :: writtenAt policy state headings

/-- What a last line without a line feed is given before its id line. -/
def LastEnding (fence : FenceTracker) (lines : List Text) (ending : Text) : Prop :=
  ending = [] ∨ (ending = ['\n'] ∨ ending = ['\r', '\n']) ∧ ∃ before raw,
    lines = before ++ [raw] ∧ '\n' ∉ raw ∧ (twoHeading (fenceAfter fence before) raw).isSome

theorem LastEnding.cons {ending : Text} (last : LastEnding (nextFence fence raw) lines ending) :
    LastEnding fence (raw :: lines) ending := by
  rcases last with empty | ⟨shape, before, other, whole, absent, heading⟩
  · exact .inl empty
  · refine .inr ⟨shape, raw :: before, other, ?_, absent, ?_⟩
    · rw [whole, List.cons_append]
    · rw [fenceAfter_cons]
      exact heading

theorem editLines_plain (found : twoHeading fence raw = none) (state : State) :
    editLines policy source false fence state (raw :: lines) =
      raw :: editLines policy source false (nextFence fence raw) state lines := by
  rw [editLines, found]
  rfl

section

variable (found : twoHeading fence raw = some text) (flags : List Bool) (page : Text)
include found flags page

theorem editLines_dropping_keep :
    editLines dropping page false fence (false :: flags) (raw :: lines) =
      raw :: editLines dropping page false none flags lines := by
  rw [editLines, found]
  rfl

theorem editLines_dropping_drop :
    editLines dropping page false fence (true :: flags) (raw :: lines) =
      raw :: editLines dropping page (lines.head?.bind rawId).isSome none flags lines := by
  rw [editLines, found]
  rfl

end

/-- Without the id lines it wrote, what an edit makes of some lines is what they
are without the id lines these took the place of. -/
def Leaves (policy : IdPolicy State) (source page other : Text) (skip : Bool)
    (fence : FenceTracker) (state : State) (lines : List Text) : Prop :=
  ∃ ending, LastEnding fence lines ending ∧
    (editLines dropping page false fence (writtenAt policy state (headingIdsFrom fence lines))
      (editLines policy source skip fence state lines)).flatten =
        (editLines dropping other skip fence
          (writtenAt policy state (headingIdsFrom fence lines)) lines).flatten ++ ending

variable {page other : Text} {state later : State}

theorem leaves_plain (found : twoHeading fence raw = none)
    (behind : Leaves policy source page other false (nextFence fence raw) state lines) :
    Leaves policy source page other false fence state (raw :: lines) := by
  obtain ⟨ending, last, same⟩ := behind
  refine ⟨ending, last.cons, ?_⟩
  rw [headingIdsFrom_plain found, editLines_plain found, editLines_plain found,
    editLines_plain found, List.flatten_cons, same, List.flatten_cons, List.append_assoc]

theorem leaves_skipped (spells : (rawId raw).isSome)
    (behind : Leaves policy source page other false none state lines) :
    Leaves policy source page other true none state (raw :: lines) := by
  obtain ⟨id, spelled⟩ := Option.isSome_iff_exists.mp spells
  obtain ⟨ending, last, whole⟩ := behind
  rw [← nextFence_rawId spelled] at last
  refine ⟨ending, last.cons, ?_⟩
  rw [headingIdsFrom_idLine spelled, editLines, if_pos rfl, whole, editLines, if_pos rfl]

section Heading

variable (found : twoHeading none raw = some text)
include found

theorem LastEnding.behind {ending : Text} (last : LastEnding none lines ending) :
    LastEnding none (raw :: lines) ending := by
  rw [← (twoHeading_closed found).2] at last
  exact last.cons

theorem leaves_kept
    (decided : policy state (trim text) (lines.head?.bind rawId) = (.keep, later))
    (behind : Leaves policy source page other false none later lines) :
    Leaves policy source page other false none state (raw :: lines) := by
  obtain ⟨ending, last, same⟩ := behind
  refine ⟨ending, last.behind found, ?_⟩
  have made : editLines policy source false none state (raw :: lines) =
      raw :: editLines policy source false none later lines := by
    rw [editLines, found]
    simp [decided]
  rw [headingIdsFrom_heading found, writtenAt, decided, made]
  rw [editLines_dropping_keep found, editLines_dropping_keep found, List.flatten_cons, same,
    List.flatten_cons, List.append_assoc]

/-- The written id line goes again, and with it the one it took the place of. -/
theorem leaves_written {good : State → Prop} (sound : policy.Sound good)
    (cut : splitInclusive (raw :: lines).flatten = raw :: lines) (holds : good state) {id : Text}
    (decided : policy state (trim text) (lines.head?.bind rawId) = (.write id, later))
    (behind : Leaves policy source page other (lines.head?.bind rawId).isSome none later lines) :
    Leaves policy source page other false none state (raw :: lines) := by
  have shape := isLine_or_of_cut cut
  have heading := twoHeading_congr (bareLine_endedLine shape source) none
  rw [found] at heading
  have written := rawId_idLine (sound.writes _ _ _ _ _ holds decided) source raw
  have made : editLines policy source false none state (raw :: lines) =
      endedLine source raw :: (idLine id ++ idLineEnding source raw) ::
        editLines policy source (lines.head?.bind rawId).isSome none later lines := by
    rw [editLines, found]
    simp [decided]
  have gone : ∀ flags rest, editLines dropping page true none flags
      ((idLine id ++ idLineEnding source raw) :: rest) =
        editLines dropping page false none flags rest := by
    intro flags rest
    rw [editLines, if_pos rfl]
  rw [Leaves, headingIdsFrom_heading found, writtenAt, decided, made]
  simp only [editLines_dropping_drop heading, editLines_dropping_drop found, List.head?_cons,
    Option.bind_some, written, Option.isSome_some, gone, List.flatten_cons]
  rcases (@isLine_of_splitInclusive_eq_append _ _ [] _ cut).2 with isLine | ⟨absent, -, rfl⟩
  · obtain ⟨ending, last, same⟩ := behind
    refine ⟨ending, last.behind found, ?_⟩
    rw [same, endedLine, if_pos (endsWith_lineFeed isLine), List.append_assoc]
  · refine ⟨idLineEnding source raw, .inr ⟨?_, [], raw, rfl, absent, ?_⟩, ?_⟩
    · exact (idLineEnding_cases source raw).symm
    · rw [fenceAfter_nil, found]
      rfl
    · rw [endedLine, not_endsWith_lineFeed absent]
      simp [editLines]

end Heading

/-- The lines from a page's start or behind a line that is no heading, and those
behind a heading whose id line an edit replaces. -/
theorem editLines_dropping {good : State → Prop} (sound : policy.Sound good)
    (keeps : ∀ state text existing, (policy state text existing).1 ≠ .drop)
    (cut : splitInclusive lines.flatten = lines) (page other : Text) (state : State)
    (holds : good state) :
    (∀ fence, Leaves policy source page other false fence state lines) ∧
    (∀ raw rest, lines = raw :: rest → (rawId raw).isSome →
      Leaves policy source page other true none state lines) := by
  induction lines generalizing state with
  | nil =>
      refine ⟨fun fence => ⟨[], .inl rfl, rfl⟩, by simp⟩
  | cons raw lines induction =>
      have tail := splitInclusive_tail cut
      constructor
      · intro fence
        cases found : twoHeading fence raw with
        | none => exact leaves_plain found ((induction tail state holds).1 _)
        | some text =>
            obtain ⟨rfl, -⟩ := twoHeading_closed found
            cases decided : policy state (trim text) (lines.head?.bind rawId) with
            | mk edit later =>
                have onward := sound.steps _ _ _ _ _ holds decided
                cases edit with
                | keep => exact leaves_kept found decided ((induction tail later onward).1 none)
                | drop => exact absurd (congrArg Prod.fst decided) (keeps _ _ _)
                | write id =>
                    refine leaves_written found sound cut holds decided ?_
                    cases skips : (lines.head?.bind rawId).isSome with
                    | false => exact (induction tail later onward).1 none
                    | true =>
                        obtain ⟨next, head, spelled⟩ :=
                          Option.bind_eq_some_iff.mp (Option.some_get skips).symm
                        obtain ⟨rest, rfl⟩ := List.head?_eq_some_iff.mp head
                        exact (induction tail later onward).2 next rest rfl
                          (by rw [spelled]; rfl)
      · rintro other rest same spells
        obtain ⟨rfl, rfl⟩ := List.cons.inj same
        exact leaves_skipped spells ((induction tail state holds).1 none)

end Untouched

section Pages

variable {source text : Text} {taken minted : List Text} {mint : Nat → Text} {fuel : Nat}

/-- A line feed, or a carriage return and one, when the page ends in a `##` heading
without a line feed; nothing otherwise. -/
def PageEnding (source ending : Text) : Prop :=
  ending = [] ∨ (ending = ['\n'] ∨ ending = ['\r', '\n']) ∧
    ∃ heading ∈ levelTwo source, heading.lineEnd = source.length ∧
      endsWith source lineFeed = false

theorem pageEnding_of_last {ending : Text}
    (last : LastEnding none (bodyLines source) ending) : PageEnding source ending := by
  rcases last with empty | ⟨shape, before, raw, lines, absent, heading⟩
  · exact .inl empty
  · obtain ⟨text, found⟩ := Option.isSome_iff_exists.mp heading
    have whole := take_append_bodyLines source
    rw [lines, List.flatten_append, List.flatten_singleton, ← List.append_assoc] at whole
    refine .inr ⟨shape, ⟨2, text, bodyOffset source + before.flatten.length,
      bodyOffset source + before.flatten.length + raw.length⟩, ?_, ?_, ?_⟩
    · rw [levelTwo_eq, lines, levelTwoFrom_append, levelTwoFrom_cons, found]
      simp
    · have lengths := congrArg List.length whole
      rw [List.length_append, List.length_append, take_bodyOffset] at lengths
      exact lengths
    · have long := two_le_length found
      rw [← whole, endsWith_append (by rw [lineFeed, List.length_singleton]; omega)]
      exact not_endsWith_lineFeed absent

/-- Without the id lines it wrote and those they took the place of, an edit leaves
the page as it was. -/
theorem withoutIdLinesAt_editIds {State : Type} {policy : IdPolicy State} {good : State → Prop}
    (sound : policy.Sound good)
    (keeps : ∀ state text existing, (policy state text existing).1 ≠ .drop) {state : State}
    (holds : good state) :
    ∃ ending, PageEnding source ending ∧
      withoutIdLinesAt (writtenAt policy state (headingIds source)) (editIds policy source state) =
        withoutIdLinesAt (writtenAt policy state (headingIds source)) source ++ ending := by
  obtain ⟨start, lines⟩ := @bodyLines_editIds State policy source good state sound holds
  obtain ⟨ending, last, same⟩ := (editLines_dropping sound keeps
    (splitInclusive_bodyLines source) (editIds policy source state) source state holds).1 none
  have front : (editIds policy source state).take (bodyOffset source) =
      source.take (bodyOffset source) := by
    rw [editIds_eq]
    nth_rewrite 1 [← take_bodyOffset source]
    exact List.take_left
  refine ⟨ending, pageEnding_of_last last, ?_⟩
  rw [withoutIdLinesAt, editIds_eq dropping, start, lines, front, headingIds_eq, same,
    withoutIdLinesAt, editIds_eq dropping, List.append_assoc]

theorem writtenAt_assigning {seen : List Text} {headings : List (Text × Option Text)}
    (left : Left seen minted (headings.map Prod.snd)) :
    writtenAt assigning (seen, minted) headings = needsId seen (headings.map Prod.snd) := by
  induction headings generalizing seen minted with
  | nil => rfl
  | cons heading headings induction =>
      obtain ⟨text, existing⟩ := heading
      rw [List.map_cons] at left
      rw [writtenAt, assigning, List.map_cons, needsId]
      cases kept : keptId seen existing with
      | some id => simp [induction (left.kept kept)]
      | none =>
          obtain ⟨id, rest, rfl, after⟩ := left.asks kept
          have absent : some id ∉ headings.map Prod.snd := fun member =>
            left.absent id List.mem_cons_self (List.mem_cons_of_mem _ member)
          simp [induction after, needsId_cons absent]

theorem editIdsFrom_settled (headings : List HeadingSpan) (seen : List Text) (copied : Nat) :
    editIdsFrom assigning source (seen, []) copied headings = source.drop copied := by
  induction headings generalizing seen with
  | nil => rfl
  | cons heading headings induction =>
      rw [editIdsFrom, assigning]
      cases keptId seen ((idUnder source heading).map Prod.fst) with
      | some id => exact induction _
      | none => exact induction _

theorem drawIds_settled {ids : List (Option Text)} {state : Minting}
    (every : ∀ existing ∈ ids, existing.isSome = true) (distinct : ids.Nodup)
    (unseen : ∀ id ∈ state.seen, some id ∉ ids) : drawIds mint fuel state ids = some [] := by
  induction ids generalizing state with
  | nil => rfl
  | cons existing ids induction =>
      obtain ⟨id, rfl⟩ := Option.isSome_iff_exists.mp (every _ List.mem_cons_self)
      obtain ⟨once, distinct⟩ := List.nodup_cons.mp distinct
      have kept : keptId state.seen (some id) = some id :=
        keptId_eq_some_iff.mpr ⟨rfl, fun held => unseen id held List.mem_cons_self⟩
      rw [drawIds, kept]
      apply induction
      · exact fun other member => every other (List.mem_cons_of_mem _ member)
      · exact distinct
      · intro other held
        rcases List.mem_cons.mp held with rfl | held
        · exact once
        · exact fun member => unseen other held (List.mem_cons_of_mem _ member)

/-- What `assign_ids` makes of a page. -/
structure Assigned (source text : Text) (taken minted : List Text) : Prop where
  /-- Every heading carries an id, no two the same, and the first to carry one
  keeps it. -/
  carried : Carried [] minted (headingIds source) (headingIds text)
  distinct : minted.Nodup
  fresh : ∀ id ∈ minted, id ∉ taken ∧ some id ∉ (headingIds source).map Prod.snd
  untouched : ∃ ending, PageEnding source ending ∧
    withoutIdLinesAt (needsId [] ((headingIds source).map Prod.snd)) text =
      withoutIdLinesAt (needsId [] ((headingIds source).map Prod.snd)) source ++ ending
  settled : ∀ mint fuel taken, assignIds text mint fuel taken = some (text, [])

theorem map_idUnder (source : Text) :
    ((levelTwo source).map fun heading => (idUnder source heading).map Prod.fst) =
      (headingIds source).map Prod.snd := by
  rw [headingIds, List.map_map]
  rfl

theorem assignIds_settled (every : ∀ heading ∈ headingIds text, heading.2.isSome = true)
    (distinct : ((headingIds text).map Prod.snd).Nodup) (mint : Nat → Text) (fuel : Nat)
    (taken : List Text) : assignIds text mint fuel taken = some (text, []) := by
  have carry : ∀ existing ∈ (headingIds text).map Prod.snd, existing.isSome = true := by
    intro existing member
    obtain ⟨heading, inside, rfl⟩ := List.mem_map.mp member
    exact every heading inside
  rw [assignIds, assignIdsFrom_eq, map_idUnder, drawIds_settled carry distinct (by simp),
    Option.map_some, editIdsFrom_settled, List.drop_zero]

/-- With ids that last, every heading gets an id of its own, and nothing else
changes. -/
theorem assignIds_assigned (source : Text) (taken : List Text) (mint : Nat → Text)
    (lasts : Lasts mint (taken.length + 2 * (levelTwo source).length)) :
    ∃ enough text minted,
      (∀ fuel, enough ≤ fuel → assignIds source mint fuel taken = some (text, minted)) ∧
        Assigned source text taken minted := by
  let present := (levelTwo source).filterMap fun heading =>
    (idUnder source heading).map Prod.fst
  have present_iff : ∀ id, id ∈ present ↔ some id ∈ (headingIds source).map Prod.snd := by
    intro id
    rw [← map_idUnder]
    simp [present]
  have room : (present ++ taken).length + ((headingIds source).map Prod.snd).length ≤
      taken.length + 2 * (levelTwo source).length := by
    have fits : present.length ≤ (levelTwo source).length := List.length_filterMap_le _ _
    rw [← map_idUnder, List.length_append, List.length_map]
    omega
  obtain ⟨enough, minted, draws⟩ := @drawIds_exists mint ((headingIds source).map Prod.snd)
    ⟨present ++ taken, [], 0⟩ _ lasts room
  have drawn := drawIds_spec (fun id member => List.mem_append_left _ ((present_iff id).mpr member))
    (draws enough (Nat.le_refl _))
  have fresh : ∀ id ∈ minted, id ∉ taken ∧ some id ∉ (headingIds source).map Prod.snd := by
    intro id member
    have unused := drawn.fresh id member
    rw [List.mem_append, not_or, present_iff] at unused
    exact ⟨unused.2, unused.1⟩
  have left : Left [] minted ((headingIds source).map Prod.snd) :=
    ⟨drawn.distinct, by simp, fun id member => (fresh id member).2, drawn.count⟩
  have valid : ∀ id ∈ minted, isSectionId id = true := by
    intro id member
    obtain ⟨place, rfl⟩ := drawn.answers id member
    exact lasts.valid place
  have carried := carried_editedIds left
  rw [← headingIds_editIds sound_assigning valid assigning_keeps] at carried
  refine ⟨enough, editIds assigning source ([], minted), minted, ?_, ?_⟩
  · intro fuel more
    rw [assignIds, assignIdsFrom_eq, map_idUnder, draws fuel more]
    rfl
  · refine ⟨carried, drawn.distinct, fresh, ?_, assignIds_settled carried.every carried.distinct⟩
    rw [← writtenAt_assigning left]
    exact withoutIdLinesAt_editIds sound_assigning assigning_keeps valid

end Pages

section Supplies

/-- Five ids in turn. -/
def fiveIds (asked : Nat) : Text :=
  List.replicate 4 (['a', 'b', 'c', 'd', 'e'].getD (asked % 5) 'a')

theorem lasts_fiveIds : Lasts fiveIds 4 := by
  constructor
  · intro asked
    have bound := Nat.mod_lt asked (show 0 < 5 by decide)
    rw [fiveIds]
    interval_cases asked % 5 <;> rfl
  · intro ids few asked
    by_contra covered
    have every : (List.range 5).map fiveIds ⊆ ids := by
      intro id member
      obtain ⟨place, below, rfl⟩ := List.mem_map.mp member
      by_contra absent
      refine covered ⟨5 * asked + place, by omega, ?_⟩
      rw [fiveIds, Nat.mul_add_mod, ← fiveIds]
      exact absent
    have long := (List.subperm_of_subset (by decide) every).length_le
    rw [List.length_map, List.length_range] at long
    omega

theorem assignIds_assigned_copy :
    ∃ enough text minted,
      (∀ fuel, enough ≤ fuel →
        assignIds "## A\n<!-- r:aaaa -->\n## B\n<!-- r:aaaa -->\n".toList fiveIds fuel [] =
          some (text, minted)) ∧
        Assigned "## A\n<!-- r:aaaa -->\n## B\n<!-- r:aaaa -->\n".toList text [] minted :=
  assignIds_assigned _ [] fiveIds (by
    have two : (levelTwo "## A\n<!-- r:aaaa -->\n## B\n<!-- r:aaaa -->\n".toList).length = 2 := by
      decide
    rw [two]
    exact lasts_fiveIds)

/-- Longer and longer runs of a character. -/
def runsOf (char : Char) (asked : Nat) : Text := List.replicate (asked + 4) char

theorem runsOf_leaves (char : Char) (ids : List Text) :
    ∃ start, ∀ asked, start ≤ asked → runsOf char asked ∉ ids := by
  induction ids with
  | nil => exact ⟨0, fun _ _ => List.not_mem_nil⟩
  | cons id ids induction =>
      obtain ⟨start, leaves⟩ := induction
      refine ⟨max start id.length, ?_⟩
      intro asked onward member
      rcases List.mem_cons.mp member with rfl | member
      · rw [runsOf, List.length_replicate] at onward
        omega
      · exact leaves asked (by omega) member

/-- A heading on the last line gets a line feed that stays when its id line goes,
and what spells no section id is not read back. -/
theorem last_heading_gets_line_feed :
    (∀ (char : Char) (ids : List Text), ∃ start, ∀ asked, start ≤ asked →
      runsOf char asked ∉ ids) ∧
      assignIds "## A".toList (runsOf 'a') 1 [] =
        some ("## A\n<!-- r:aaaa -->\n".toList, ["aaaa".toList]) ∧
      withoutIdLinesAt [true] "## A\n<!-- r:aaaa -->\n".toList ≠
        withoutIdLinesAt [true] "## A".toList ∧
      assignIds "## A\n".toList (runsOf 'z') 1 [] =
        some ("## A\n<!-- r:zzzz -->\n".toList, ["zzzz".toList]) ∧
      headingIds "## A\n<!-- r:zzzz -->\n".toList = [("A".toList, none)] :=
  ⟨runsOf_leaves, by decide, by decide, by decide, by decide⟩

end Supplies

end Crystalline.Reflection
