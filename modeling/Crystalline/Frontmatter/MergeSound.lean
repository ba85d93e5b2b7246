import Crystalline.Frontmatter.Merge

/-!
# What a clean key-wise merge keeps

The head of a clean merge cuts again to one block for each key that stays, and
each of them is the block the table of `merge_frontmatter` selects.
-/

namespace Crystalline

open Text

/-- A line merge that makes no delimiter line of texts that hold none. -/
def LineMerge.KeepsUndelimited (lineMerge : LineMerge) : Prop :=
  ∀ base localText upstreamText merged,
    lineMerge base localText upstreamText = some merged →
      Undelimited base → Undelimited localText → Undelimited upstreamText →
        Undelimited merged

section

variable {left right : Text} (ended : Terminated left)
include ended

theorem Undelimited.append (leftFree : Undelimited left) (rightFree : Undelimited right) :
    Undelimited (left ++ right) := by
  intro line member
  rw [splitInclusive_append ended] at member
  exact (List.mem_append.mp member).elim (leftFree line) (rightFree line)

theorem Undelimited.of_append (free : Undelimited (left ++ right)) :
    Undelimited left ∧ Undelimited right := by
  rw [Undelimited, splitInclusive_append ended] at free
  exact ⟨fun line member => free line (List.mem_append_left _ member),
    fun line member => free line (List.mem_append_right _ member)⟩

end

section Keys

variable {Value : Type} [DecidableEq Value] {blocks : List (KeyBlock Value)} {key : Value}

theorem holdsKey_iff : holdsKey blocks key = true ↔ key ∈ keysOf blocks := by
  simp [holdsKey, keysOf]

theorem find_eq_none_iff : find blocks key = none ↔ key ∉ keysOf blocks := by
  simp [find, keysOf]

section

variable {block : KeyBlock Value} (found : find blocks key = some block)
include found

theorem parsedKey_of_find : block.parsedKey = key := by
  simpa using List.find?_some found

theorem mem_of_find : block ∈ blocks :=
  List.mem_of_find?_eq_some found

end

theorem withoutRepeatsFrom_sublist (keep : Keep) (seen blocks : List (KeyBlock Value)) :
    (withoutRepeatsFrom keep seen blocks).Sublist blocks := by
  induction blocks generalizing seen with
  | nil => exact List.Sublist.refl _
  | cons block rest ih =>
      rw [withoutRepeatsFrom]
      split
      · exact (ih _).cons block
      · exact (ih _).cons_cons block

theorem withoutRepeatsFrom_first_nodup (seen blocks : List (KeyBlock Value)) :
    (keysOf (withoutRepeatsFrom .first seen blocks)).Nodup ∧
      ∀ key ∈ keysOf (withoutRepeatsFrom .first seen blocks), key ∉ keysOf seen := by
  induction blocks generalizing seen with
  | nil => simp [withoutRepeatsFrom, keysOf]
  | cons block rest ih =>
      obtain ⟨restNodup, restFresh⟩ := ih (seen ++ [block])
      have restFresh' : ∀ key ∈ keysOf
          (withoutRepeatsFrom .first (seen ++ [block]) rest),
          key ∉ keysOf seen ∧ key ≠ block.parsedKey := by
        intro key member
        simpa [keysOf] using restFresh key member
      rw [withoutRepeatsFrom]
      by_cases repeated : holdsKey seen block.parsedKey = true
      · simp only [dropsCopy, repeated, if_true]
        exact ⟨restNodup, fun key member => (restFresh' key member).1⟩
      · simp only [dropsCopy, repeated]
        refine ⟨List.nodup_cons.mpr ⟨?_, restNodup⟩, ?_⟩
        · intro member
          exact (restFresh' _ member).2 rfl
        · intro key member
          rcases List.mem_cons.mp member with rfl | later
          · exact fun inSeen => repeated (holdsKey_iff.mpr inSeen)
          · exact (restFresh' key later).1

theorem withoutRepeats_first_nodup (blocks : List (KeyBlock Value)) :
    (keysOf (withoutRepeats blocks .first)).Nodup :=
  (withoutRepeatsFrom_first_nodup [] blocks).1

end Keys

section Sides

variable {Value : Type} [DecidableEq Value] {yaml : Yaml Value}
  {lineMerge : LineMerge}

/-- A block that can stand in a merged head: it cuts back to itself there and
ends no frontmatter. -/
def KeyBlock.Usable (yaml : Yaml Value) (block : KeyBlock Value) : Prop :=
  block.WellCut yaml ∧ Undelimited block.text

/-- What holds of a side once it is prepared. -/
structure Prepared.Sound (yaml : Yaml Value) (side : Prepared Value) : Prop where
  nodup : (keysOf side.blocks).Nodup
  preamble_shape : IsPreambleText side.preamble
  preamble_undelimited : Undelimited side.preamble
  usable : ∀ block ∈ side.blocks, block.Usable yaml

omit [DecidableEq Value] in
theorem undelimited_of_mem_joinBlocks {blocks : List (KeyBlock Value)}
    (ended : ∀ block ∈ blocks, Terminated block.text)
    (free : Undelimited (joinBlocks blocks)) :
    ∀ block ∈ blocks, Undelimited block.text := by
  intro block member line lineMember
  apply free
  rw [splitInclusive_joinBlocks ended]
  exact List.mem_flatten.mpr ⟨_, List.mem_map_of_mem member, lineMember⟩

omit [DecidableEq Value] in
theorem terminated_joinBlocks {blocks : List (KeyBlock Value)}
    (usable : ∀ block ∈ blocks, block.Usable yaml) :
    Terminated (joinBlocks blocks) := by
  apply Terminated.flatten
  intro text member
  obtain ⟨block, blockMember, rfl⟩ := List.mem_map.mp member
  exact (usable block blockMember).1.1.1

omit [DecidableEq Value] in
theorem undelimited_joinBlocks {blocks : List (KeyBlock Value)}
    (usable : ∀ block ∈ blocks, block.Usable yaml) :
    Undelimited (joinBlocks blocks) := by
  intro line member
  rw [splitInclusive_joinBlocks fun block blockMember =>
    (usable block blockMember).1.1.1] at member
  obtain ⟨lines, linesMember, lineMember⟩ := List.mem_flatten.mp member
  obtain ⟨block, blockMember, rfl⟩ := List.mem_map.mp linesMember
  exact (usable block blockMember).2 line lineMember

variable {side : Prepared Value} {merged : Text} {value : Value}
  {base localBlock upstreamBlock result : Option (KeyBlock Value)} {key : Value}
  {bs ls us : Prepared Value}

theorem prepare_sound {text : Text} (terminated : Terminated text) (free : Undelimited text)
    (prepared : prepare yaml text = .ok side) : side.Sound yaml := by
  unfold prepare at prepared
  split at prepared
  · simp at prepared
  · next cut cutEq =>
      obtain ⟨textEq, preambleShape, wellCut⟩ := keyBlocks_eq_some terminated cutEq
      have ended : ∀ block ∈ cut.blocks, Terminated block.text :=
        fun block member => (wellCut block member).1.1
      rw [textEq] at free
      obtain ⟨preambleFree, joinedFree⟩ := free.of_append preambleShape.1
      have blocksFree := undelimited_of_mem_joinBlocks ended joinedFree
      split at prepared
      · simp at prepared
      · dsimp only at prepared
        split at prepared
        · obtain rfl := Except.ok.inj prepared
          refine ⟨withoutRepeats_first_nodup _, preambleShape, preambleFree, ?_⟩
          intro block member
          have inCut := (withoutRepeatsFrom_sublist .first [] cut.blocks).subset member
          exact ⟨wellCut block inCut, blocksFree block inCut⟩
        · simp at prepared

theorem splitFrontmatter_sound {source : Text} {parts : FrontmatterParts}
    (found : splitFrontmatter source = some parts) (prepared : prepare yaml parts.yaml = .ok side) :
    side.Sound yaml := by
  obtain ⟨wellCut, -⟩ := splitFrontmatter_eq_some_iff.mp found
  exact prepare_sound wellCut.yaml_terminated wellCut.yaml_undelimited prepared

theorem prepareBase_sound {base : Option Text}
    (prepared : prepareBase yaml (base.bind splitFrontmatter) = .ok side) : side.Sound yaml := by
  unfold prepareBase at prepared
  split at prepared
  · obtain rfl := Except.ok.inj prepared
    exact ⟨by simp [keysOf], ⟨terminated_nil, by simp [splitInclusive]⟩,
      by simp [Undelimited, splitInclusive], by simp⟩
  · next parts partsEq =>
      obtain ⟨source, -, found⟩ := Option.bind_eq_some_iff.mp partsEq
      exact splitFrontmatter_sound found prepared

theorem Prepared.Sound.find_usable (sound : side.Sound yaml) (key : Value) :
    ∀ block, find side.blocks key = some block →
      block.parsedKey = key ∧ block.Usable yaml := fun block found =>
  ⟨parsedKey_of_find found, sound.usable block (mem_of_find found)⟩

/-- The result is the line merge of the three blocks, cut to one block. -/
def LineMerged (yaml : Yaml Value) (lineMerge : LineMerge)
    (base localBlock upstreamBlock result : Option (KeyBlock Value)) : Prop :=
  ∃ b l u r block, base = some b ∧ localBlock = some l ∧
    upstreamBlock = some u ∧ result = some r ∧
    lineMerge b.text l.text u.text = some r.text ∧
    keyBlocks yaml r.text = some ⟨[], [block]⟩ ∧
    block.parsedKey = r.parsedKey ∧ block.value = r.value

/-- What the table of `merge_frontmatter` promises of one key's result. -/
structure KeyOutcome (yaml : Yaml Value) (lineMerge : LineMerge)
    (base localBlock upstreamBlock result : Option (KeyBlock Value)) : Prop where
  agreed : valueOf localBlock = valueOf upstreamBlock →
    valueOf result = valueOf localBlock
  local_unchanged : valueOf localBlock = valueOf base →
    valueOf result = valueOf upstreamBlock
  upstream_unchanged : valueOf upstreamBlock = valueOf base →
    valueOf result = valueOf localBlock
  both_changed : valueOf localBlock ≠ valueOf upstreamBlock →
    valueOf localBlock ≠ valueOf base → valueOf upstreamBlock ≠ valueOf base →
      LineMerged yaml lineMerge base localBlock upstreamBlock result
  /-- Local only re-spelled the block and upstream changed its value. -/
  local_respelled : valueOf localBlock = valueOf base →
    textOf localBlock ≠ textOf base → valueOf upstreamBlock ≠ valueOf base →
      LineMerged yaml lineMerge base localBlock upstreamBlock result
  /-- The mirror. -/
  upstream_respelled : valueOf upstreamBlock = valueOf base →
    textOf upstreamBlock ≠ textOf base → valueOf localBlock ≠ valueOf base →
      LineMerged yaml lineMerge base localBlock upstreamBlock result

theorem mergeBlock_eq_some {b l u : KeyBlock Value}
    (done : mergeBlock yaml lineMerge b l u = some (merged, value)) :
    ∃ block, lineMerge b.text l.text u.text = some merged ∧
      keyBlocks yaml merged = some ⟨[], [block]⟩ ∧
      block.parsedKey = l.parsedKey ∧ block.value = value ∧
      block.text = merged ∧ block.WellCut yaml := by
  unfold mergeBlock at done
  split at done
  · simp at done
  · next text textEq =>
      split at done
      · next block cutEq =>
          split at done
          · next guards =>
              simp only [Option.some.injEq, Prod.mk.injEq] at done
              obtain ⟨rfl, rfl⟩ := done
              obtain ⟨body, rfl⟩ := endsWith_iff.mp guards.2
              obtain ⟨textIs, -, wellCut⟩ :=
                keyBlocks_eq_some (terminated_snoc body) cutEq
              refine ⟨block, textEq, cutEq, guards.1, rfl, ?_, wellCut block (by simp)⟩
              simpa [joinBlocks] using textIs.symm
          · simp at done
      · simp at done

section

variable {base localBlock upstreamBlock : Option (KeyBlock Value)}

theorem mergeThree_eq_some (done : mergeThree yaml lineMerge base localBlock upstreamBlock =
      some (merged, value)) :
    ∃ b l u, base = some b ∧ localBlock = some l ∧ upstreamBlock = some u ∧
      mergeBlock yaml lineMerge b l u = some (merged, value) := by
  unfold mergeThree at done
  split at done
  · next b l u => exact ⟨b, l, u, rfl, rfl, rfl, done⟩
  · simp at done

theorem mergeCarrying_eq_some {wanted : Option Value}
    (done : mergeCarrying yaml lineMerge base localBlock upstreamBlock wanted =
      some merged) :
    ∃ value, mergeThree yaml lineMerge base localBlock upstreamBlock =
      some (merged, value) ∧ some value = wanted := by
  unfold mergeCarrying at done
  split at done
  · next text value threeEq =>
      split at done
      · next carries =>
          obtain rfl := Option.some.inj done
          exact ⟨value, threeEq, carries⟩
      · simp at done
  · simp at done

end

omit [DecidableEq Value] in
theorem KeyOutcome.of_agreed (agree : valueOf localBlock = valueOf upstreamBlock)
    (kept : valueOf result = valueOf localBlock) :
    KeyOutcome yaml lineMerge base localBlock upstreamBlock result where
  agreed _ := kept
  local_unchanged _ := kept.trans agree
  upstream_unchanged _ := kept
  both_changed differ := (differ agree).elim
  local_respelled same _ differ := (differ (agree.symm.trans same)).elim
  upstream_respelled same _ differ := (differ (agree.trans same)).elim

omit [DecidableEq Value] in
theorem KeyOutcome.of_local_unchanged (differ : valueOf localBlock ≠ valueOf upstreamBlock)
    (same : valueOf localBlock = valueOf base) (kept : valueOf result = valueOf upstreamBlock)
    (respelled : textOf localBlock ≠ textOf base →
      LineMerged yaml lineMerge base localBlock upstreamBlock result) :
    KeyOutcome yaml lineMerge base localBlock upstreamBlock result where
  agreed agree := (differ agree).elim
  local_unchanged _ := kept
  upstream_unchanged other := (differ (same.trans other.symm)).elim
  both_changed _ changed := (changed same).elim
  local_respelled _ spelled _ := respelled spelled
  upstream_respelled other := (differ (same.trans other.symm)).elim

omit [DecidableEq Value] in
theorem KeyOutcome.of_upstream_unchanged (differ : valueOf localBlock ≠ valueOf upstreamBlock)
    (same : valueOf upstreamBlock = valueOf base) (kept : valueOf result = valueOf localBlock)
    (respelled : textOf upstreamBlock ≠ textOf base →
      LineMerged yaml lineMerge base localBlock upstreamBlock result) :
    KeyOutcome yaml lineMerge base localBlock upstreamBlock result where
  agreed agree := (differ agree).elim
  local_unchanged other := (differ (other.trans same.symm)).elim
  upstream_unchanged _ := kept
  both_changed _ _ changed := (changed same).elim
  local_respelled other := (differ (other.trans same.symm)).elim
  upstream_respelled _ spelled _ := respelled spelled

omit [DecidableEq Value] in
theorem KeyOutcome.of_both_changed (differ : valueOf localBlock ≠ valueOf upstreamBlock)
    (localChanged : valueOf localBlock ≠ valueOf base)
    (upstreamChanged : valueOf upstreamBlock ≠ valueOf base)
    (merged : LineMerged yaml lineMerge base localBlock upstreamBlock result) :
    KeyOutcome yaml lineMerge base localBlock upstreamBlock result where
  agreed agree := (differ agree).elim
  local_unchanged same := (localChanged same).elim
  upstream_unchanged same := (upstreamChanged same).elim
  both_changed _ _ _ := merged
  local_respelled same := (localChanged same).elim
  upstream_respelled same := (upstreamChanged same).elim

/-- What a picked text stands for: no block, or one of the key that can stand
in a merged head. -/
def PickedBlock (yaml : Yaml Value) (key : Value) (text : Option Text)
    (result : Option (KeyBlock Value)) : Prop :=
  textOf result = text ∧
    ∀ block, result = some block → block.parsedKey = key ∧ block.Usable yaml

section

variable (keeps : lineMerge.KeepsUndelimited)
  {base localBlock upstreamBlock : Option (KeyBlock Value)}
  (baseUsable : ∀ block, base = some block → block.parsedKey = key ∧ block.Usable yaml)
  (localUsable : ∀ block, localBlock = some block → block.parsedKey = key ∧ block.Usable yaml)
  (upstreamUsable : ∀ block, upstreamBlock = some block → block.parsedKey = key ∧ block.Usable yaml)
include keeps baseUsable localUsable upstreamUsable

theorem mergeThree_picked (done : mergeThree yaml lineMerge base localBlock upstreamBlock =
      some (merged, value)) :
    ∃ result, PickedBlock yaml key (some merged) result ∧
      valueOf result = some value ∧
      LineMerged yaml lineMerge base localBlock upstreamBlock result := by
  obtain ⟨b, l, u, rfl, rfl, rfl, blockDone⟩ := mergeThree_eq_some done
  obtain ⟨block, mergeEq, cutEq, keyEq, valueEq, textEq, wellCut⟩ :=
    mergeBlock_eq_some blockDone
  subst textEq
  have free : Undelimited block.text := keeps _ _ _ _ mergeEq
    (baseUsable b rfl).2.2 (localUsable l rfl).2.2 (upstreamUsable u rfl).2.2
  refine ⟨some block, ⟨rfl, ?_⟩, by simp [valueOf, valueEq], ?_⟩
  · rintro other otherEq
    obtain rfl := Option.some.inj otherEq
    exact ⟨keyEq.trans (localUsable l rfl).1, wellCut, free⟩
  · exact ⟨b, l, u, block, block, rfl, rfl, rfl, rfl, mergeEq, cutEq, rfl, rfl⟩

/-- One key's result is the block the table selects. -/
theorem pick_outcome {text : Option Text}
    (picked : pick yaml lineMerge base localBlock upstreamBlock = .ok text) :
    ∃ result, PickedBlock yaml key text result ∧
      KeyOutcome yaml lineMerge base localBlock upstreamBlock result := by
  have carrying : ∀ {wanted : Option Value} {merged : Text},
      mergeCarrying yaml lineMerge base localBlock upstreamBlock wanted =
        some merged → ∃ result, PickedBlock yaml key (some merged) result ∧
          valueOf result = wanted ∧
          LineMerged yaml lineMerge base localBlock upstreamBlock result := by
    intro wanted merged done
    obtain ⟨value, threeEq, rfl⟩ := mergeCarrying_eq_some done
    exact mergeThree_picked keeps baseUsable localUsable upstreamUsable threeEq
  unfold pick at picked
  split at picked
  · next agree =>
      have takeUpstream : ∃ result,
          PickedBlock yaml key (textOf upstreamBlock) result ∧
            KeyOutcome yaml lineMerge base localBlock upstreamBlock result :=
        ⟨upstreamBlock, ⟨rfl, upstreamUsable⟩, .of_agreed agree agree.symm⟩
      have takeLocal : ∃ result,
          PickedBlock yaml key (textOf localBlock) result ∧
            KeyOutcome yaml lineMerge base localBlock upstreamBlock result :=
        ⟨localBlock, ⟨rfl, localUsable⟩, .of_agreed agree rfl⟩
      split at picked
      · obtain rfl := Except.ok.inj picked
        exact takeUpstream
      · split at picked
        · obtain rfl := Except.ok.inj picked
          exact takeLocal
        · split at picked
          · obtain rfl := Except.ok.inj picked
            exact takeUpstream
          · split at picked
            · next merged carried =>
                obtain rfl := Except.ok.inj picked
                obtain ⟨result, isPicked, valueEq, -⟩ := carrying carried
                exact ⟨result, isPicked, .of_agreed agree valueEq⟩
            · obtain rfl := Except.ok.inj picked
              exact takeLocal
  · next differ =>
      split at picked
      · next same =>
          split at picked
          · next spelled =>
              obtain rfl := Except.ok.inj picked
              exact ⟨upstreamBlock, ⟨rfl, upstreamUsable⟩,
                .of_local_unchanged differ same rfl fun other =>
                  (other spelled).elim⟩
          · split at picked
            · next merged carried =>
                obtain rfl := Except.ok.inj picked
                obtain ⟨result, isPicked, valueEq, lineMerged⟩ := carrying carried
                exact ⟨result, isPicked,
                  .of_local_unchanged differ same valueEq fun _ => lineMerged⟩
            · simp at picked
      · next localChanged =>
          split at picked
          · next same =>
              split at picked
              · next spelled =>
                  obtain rfl := Except.ok.inj picked
                  exact ⟨localBlock, ⟨rfl, localUsable⟩,
                    .of_upstream_unchanged differ same rfl fun other =>
                      (other spelled).elim⟩
              · split at picked
                · next merged carried =>
                    obtain rfl := Except.ok.inj picked
                    obtain ⟨result, isPicked, valueEq, lineMerged⟩ := carrying carried
                    exact ⟨result, isPicked,
                      .of_upstream_unchanged differ same valueEq fun _ => lineMerged⟩
                · simp at picked
          · next upstreamChanged =>
              split at picked
              · next merged value threeEq =>
                  obtain rfl := Except.ok.inj picked
                  obtain ⟨result, isPicked, -, lineMerged⟩ :=
                    mergeThree_picked keeps baseUsable localUsable upstreamUsable
                      threeEq
                  exact ⟨result, isPicked,
                    .of_both_changed differ localChanged upstreamChanged lineMerged⟩
              · simp at picked

end

theorem find_cons (block : KeyBlock Value) (blocks : List (KeyBlock Value)) (key : Value) :
    find (block :: blocks) key =
      if block.parsedKey = key then some block else find blocks key := by
  rw [find, List.find?_cons]
  by_cases same : block.parsedKey = key
  · simp [same]
  · simp [same, find]

/-- The results of the loop over the key order, as blocks: the head grows by
their texts, and each key's result is the block the table selects. -/
theorem mergeKeys_outcome (keeps : lineMerge.KeepsUndelimited) {bs ls us : List (KeyBlock Value)}
    (bsUsable : ∀ key block, find bs key = some block →
      block.parsedKey = key ∧ block.Usable yaml)
    (lsUsable : ∀ key block, find ls key = some block →
      block.parsedKey = key ∧ block.Usable yaml)
    (usUsable : ∀ key block, find us key = some block →
      block.parsedKey = key ∧ block.Usable yaml)
    {order : List (KeyBlock Value)} (orderNodup : (keysOf order).Nodup)
    {head out : Text}
    (done : mergeKeys yaml lineMerge bs ls us head order = .ok out) :
    ∃ results, out = head ++ joinBlocks results ∧
      (∀ block ∈ results, block.Usable yaml) ∧
      (keysOf results).Sublist (keysOf order) ∧
      ∀ key ∈ keysOf order, KeyOutcome yaml lineMerge (find bs key)
        (find ls key) (find us key) (find results key) := by
  induction order generalizing head with
  | nil =>
      obtain rfl := Except.ok.inj done
      exact ⟨[], by simp [joinBlocks], by simp, List.Sublist.refl _, by simp [keysOf]⟩
  | cons block order ih =>
      obtain ⟨headFresh, tailNodup⟩ := List.nodup_cons.mp orderNodup
      have absent : ∀ {results : List (KeyBlock Value)},
          (keysOf results).Sublist (keysOf order) →
            find results block.parsedKey = none := by
        intro results sublist
        exact find_eq_none_iff.mpr fun member => headFresh (sublist.subset member)
      have different : ∀ {key : Value}, key ∈ keysOf order →
          block.parsedKey ≠ key := by
        rintro key member rfl
        exact headFresh member
      rw [mergeKeys] at done
      split at done
      · next text picked =>
          obtain ⟨result, ⟨textEq, usable⟩, outcome⟩ :=
            pick_outcome keeps (bsUsable _) (lsUsable _) (usUsable _) picked
          obtain ⟨written, rfl, rfl⟩ := Option.map_eq_some_iff.mp textEq
          obtain ⟨keyEq, writtenUsable⟩ := usable written rfl
          obtain ⟨results, rfl, allUsable, sublist, outcomes⟩ := ih tailNodup done
          refine ⟨written :: results, by simp [joinBlocks], ?_, ?_, ?_⟩
          · intro other member
            rcases List.mem_cons.mp member with rfl | later
            · exact writtenUsable
            · exact allUsable other later
          · simpa [keysOf, keyEq] using sublist
          · intro key member
            rw [find_cons, keyEq]
            rcases List.mem_cons.mp member with rfl | later
            · simpa using outcome
            · rw [if_neg (different later)]
              exact outcomes key later
      · next picked =>
          obtain ⟨result, ⟨textEq, -⟩, outcome⟩ :=
            pick_outcome keeps (bsUsable _) (lsUsable _) (usUsable _) picked
          obtain rfl := Option.map_eq_none_iff.mp textEq
          obtain ⟨results, rfl, allUsable, sublist, outcomes⟩ := ih tailNodup done
          refine ⟨results, rfl, allUsable, sublist.cons _, ?_⟩
          intro key member
          rcases List.mem_cons.mp member with rfl | later
          · rw [absent sublist]
            exact outcome
          · exact outcomes key later
      · simp at done

omit [DecidableEq Value] in
theorem keysOf_renumber (index : Nat) (blocks : List (KeyBlock Value)) :
    keysOf (renumber index blocks) = keysOf blocks := by
  induction blocks generalizing index with
  | nil => rfl
  | cons block blocks ih =>
      have tail := ih (index + (splitInclusive block.text).length)
      simpa [renumber, keysOf] using tail

theorem find_renumber (index : Nat) (blocks : List (KeyBlock Value)) (key : Value) :
    ∃ line : KeyBlock Value → Nat, find (renumber index blocks) key =
      (find blocks key).map fun block => { block with line := line block } := by
  induction blocks generalizing index with
  | nil => exact ⟨fun _ => 0, rfl⟩
  | cons block blocks ih =>
      rw [renumber, find_cons, find_cons]
      by_cases same : block.parsedKey = key
      · exact ⟨fun _ => index + 2, by simp [same]⟩
      · simpa [same] using ih _

/-- Outcomes do not depend on line numbers. -/
theorem KeyOutcome.renumbered {bs ls us : Option (KeyBlock Value)} {results : List (KeyBlock Value)}
    (index : Nat) (outcome : KeyOutcome yaml lineMerge bs ls us (find results key)) :
    KeyOutcome yaml lineMerge bs ls us (find (renumber index results) key) := by
  obtain ⟨line, found⟩ := find_renumber index results key
  have valueEq : valueOf (find (renumber index results) key) =
      valueOf (find results key) := by
    rw [found]
    cases find results key <;> rfl
  have merged : LineMerged yaml lineMerge bs ls us (find results key) →
      LineMerged yaml lineMerge bs ls us (find (renumber index results) key) := by
    rintro ⟨b, l, u, r, block, hb, hl, hu, hr, mergeEq, cutEq, keyEq, valueEq⟩
    refine ⟨b, l, u, { r with line := line r }, block, hb, hl, hu, ?_, mergeEq,
      cutEq, keyEq, valueEq⟩
    rw [found, hr, Option.map_some]
  exact
    { agreed := fun same => valueEq.trans (outcome.agreed same)
      local_unchanged := fun same => valueEq.trans (outcome.local_unchanged same)
      upstream_unchanged := fun same =>
        valueEq.trans (outcome.upstream_unchanged same)
      both_changed := fun differ left right =>
        merged (outcome.both_changed differ left right)
      local_respelled := fun same spelled differ =>
        merged (outcome.local_respelled same spelled differ)
      upstream_respelled := fun same spelled differ =>
        merged (outcome.upstream_respelled same spelled differ) }

/-- The three prepared sides of a merge. -/
structure SidesOf (yaml : Yaml Value) (base : Option Text)
    (localText upstreamText : Text) (bs ls us : Prepared Value)
    (l u : FrontmatterParts) : Prop where
  local_split : splitFrontmatter localText = some l
  upstream_split : splitFrontmatter upstreamText = some u
  base_prepared : prepareBase yaml (base.bind splitFrontmatter) = .ok bs
  local_prepared : prepare yaml l.yaml = .ok ls
  upstream_prepared : prepare yaml u.yaml = .ok us

theorem mergeFrontmatter_eq_clean {base : Option Text}
    {localText upstreamText head baseBody localBody upstreamBody : Text}
    (clean : mergeFrontmatter yaml lineMerge base localText upstreamText =
      .clean head baseBody localBody upstreamBody) :
    ∃ bs ls us l u, SidesOf yaml base localText upstreamText bs ls us l u ∧
      mergePrepared yaml lineMerge u bs ls us = .ok head := by
  unfold mergeFrontmatter at clean
  split at clean
  · next l u localEq upstreamEq =>
      dsimp only at clean
      split at clean
      · next bs ls us baseOk localOk upstreamOk =>
          split at clean
          · next merged mergedEq =>
              obtain rfl := (FrontmatterMerge.clean.inj clean).1
              exact ⟨bs, ls, us, l, u,
                ⟨localEq, upstreamEq, baseOk, localOk, upstreamOk⟩, mergedEq⟩
          · simp at clean
      all_goals simp at clean
  · simp at clean

theorem settle_cases {base localText upstreamText settled : Text}
    (done : settle base localText upstreamText = some settled) :
    settled = localText ∨ settled = upstreamText := by
  unfold settle at done
  split at done
  · exact Or.inr (Option.some.inj done).symm
  · split at done
    · exact Or.inl (Option.some.inj done).symm
    · simp at done

theorem map_eq_ok {Result Image : Type} {step : Except Unit Result}
    {image : Result → Image} {value : Image} (mapped : step.map image = .ok value) :
    ∃ result, step = .ok result ∧ image result = value := by
  cases step with
  | error refusal => simp [Except.map] at mapped
  | ok result => exact ⟨result, rfl, Except.ok.inj mapped⟩

/-- A merged head is well cut, and its blocks are the selected ones. -/
theorem mergePrepared_recuts (keeps : lineMerge.KeepsUndelimited) {u : FrontmatterParts}
    (upstreamCut : u.WellCut) (baseSound : bs.Sound yaml) (localSound : ls.Sound yaml)
    (upstreamSound : us.Sound yaml) {head : Text}
    (merged : mergePrepared yaml lineMerge u bs ls us = .ok head) :
    ∃ parts cut, splitFrontmatter head = some parts ∧
      keyBlocks yaml parts.yaml = some cut ∧ (keysOf cut.blocks).Nodup ∧
      settle bs.preamble ls.preamble us.preamble = some cut.preamble ∧
      ∀ key, KeyOutcome yaml lineMerge (find bs.blocks key) (find ls.blocks key)
        (find us.blocks key) (find cut.blocks key) := by
  unfold mergePrepared at merged
  split at merged
  · simp at merged
  · next preamble settled =>
      obtain ⟨orderNodup, orderKeys, -⟩ := keyOrder_interleaves bs.blocks ls.blocks
        us.blocks localSound.nodup upstreamSound.nodup
      obtain ⟨out, done, rfl⟩ := map_eq_ok merged
      obtain ⟨results, rfl, usable, sublist, outcomes⟩ := mergeKeys_outcome keeps
        baseSound.find_usable localSound.find_usable upstreamSound.find_usable
        orderNodup done
      have preambleSound : IsPreambleText preamble ∧ Undelimited preamble := by
        rcases settle_cases settled with rfl | rfl
        · exact ⟨localSound.preamble_shape, localSound.preamble_undelimited⟩
        · exact ⟨upstreamSound.preamble_shape, upstreamSound.preamble_undelimited⟩
      have joinedEnded := terminated_joinBlocks usable
      have split : splitFrontmatter
          (u.openLine ++ preamble ++ joinBlocks results ++ u.closeLine) =
            some ⟨u.openLine, preamble ++ joinBlocks results, u.closeLine, []⟩ := by
        refine splitFrontmatter_eq_some_iff.mpr
          ⟨⟨upstreamCut.openLine_isLine, upstreamCut.openLine_delimits,
            preambleSound.1.1.append joinedEnded,
            preambleSound.2.append preambleSound.1.1 (undelimited_joinBlocks usable),
            upstreamCut.closeLine_delimits, ?_⟩, by simp [FrontmatterParts.source]⟩
        rcases upstreamCut.closeLine_ends with isLine | ⟨absent, nonempty, -⟩
        · exact Or.inl isLine
        · exact Or.inr ⟨absent, nonempty, rfl⟩
      have cutAgain := keyBlocks_join preambleSound.1 fun block member =>
        (usable block member).1
      refine ⟨_, _, split, cutAgain, ?_, settled, ?_⟩
      · rw [keysOf_renumber]
        exact orderNodup.sublist sublist
      · intro key
        by_cases member : key ∈ keysOf (keyOrder bs.blocks ls.blocks us.blocks)
        · exact (outcomes key member).renumbered _
        · have inNeither := (orderKeys key).not.mp member
          rw [not_or] at inNeither
          have noResult : find (renumber (splitInclusive preamble).length results) key =
              none := by
            rw [find_eq_none_iff, keysOf_renumber]
            exact fun inResults => member (sublist.subset inResults)
          rw [find_eq_none_iff.mpr inNeither.1, find_eq_none_iff.mpr inNeither.2, noResult]
          exact .of_agreed rfl rfl

/-- The head cuts again to blocks with distinct keys, each of them what the
table selects of the three prepared sides. -/
def HeadKeeps (yaml : Yaml Value) (lineMerge : LineMerge) (base : Option Text)
    (localText upstreamText head : Text) : Prop :=
  ∃ bs ls us l u parts cut, SidesOf yaml base localText upstreamText bs ls us l u ∧
    splitFrontmatter head = some parts ∧ keyBlocks yaml parts.yaml = some cut ∧
    (keysOf cut.blocks).Nodup ∧
    ∀ key, KeyOutcome yaml lineMerge (find bs.blocks key) (find ls.blocks key)
      (find us.blocks key) (find cut.blocks key)

/-- The sides and the cut of a head that keeps are functions of the texts. -/
theorem HeadKeeps.outcome {base : Option Text} {localText upstreamText head : Text}
    (kept : HeadKeeps yaml lineMerge base localText upstreamText head)
    {l u parts : FrontmatterParts} {cut : KeyBlocks Value}
    (sides : SidesOf yaml base localText upstreamText bs ls us l u)
    (splitEq : splitFrontmatter head = some parts) (cutEq : keyBlocks yaml parts.yaml = some cut)
    (key : Value) :
    KeyOutcome yaml lineMerge (find bs.blocks key) (find ls.blocks key)
      (find us.blocks key) (find cut.blocks key) := by
  obtain ⟨bs', ls', us', l', u', parts', cut', sides', splitEq', cutEq', -, outcomes⟩ :=
    kept
  obtain rfl := Option.some.inj (sides.local_split.symm.trans sides'.local_split)
  obtain rfl := Option.some.inj (sides.upstream_split.symm.trans sides'.upstream_split)
  obtain rfl := Except.ok.inj (sides.base_prepared.symm.trans sides'.base_prepared)
  obtain rfl := Except.ok.inj (sides.local_prepared.symm.trans sides'.local_prepared)
  obtain rfl := Except.ok.inj
    (sides.upstream_prepared.symm.trans sides'.upstream_prepared)
  obtain rfl := Option.some.inj (splitEq.symm.trans splitEq')
  obtain rfl := Option.some.inj (cutEq.symm.trans cutEq')
  exact outcomes key

/-- A clean merge loses no one-sided change and invents no key. -/
theorem mergeFrontmatter_clean_keeps (keeps : lineMerge.KeepsUndelimited) {base : Option Text}
    {localText upstreamText head baseBody localBody upstreamBody : Text}
    (clean : mergeFrontmatter yaml lineMerge base localText upstreamText =
      .clean head baseBody localBody upstreamBody) :
    HeadKeeps yaml lineMerge base localText upstreamText head := by
  obtain ⟨bs, ls, us, l, u, sides, merged⟩ := mergeFrontmatter_eq_clean clean
  obtain ⟨upstreamCut, -⟩ := splitFrontmatter_eq_some_iff.mp sides.upstream_split
  obtain ⟨parts, cut, splitEq, cutEq, nodup, -, outcomes⟩ := mergePrepared_recuts keeps
    upstreamCut (prepareBase_sound sides.base_prepared)
    (splitFrontmatter_sound sides.local_split sides.local_prepared)
    (splitFrontmatter_sound sides.upstream_split sides.upstream_prepared) merged
  exact ⟨bs, ls, us, l, u, parts, cut, sides, splitEq, cutEq, nodup, outcomes⟩

end Sides

/-- A line merge that takes the upstream text. -/
def takeUpstream : LineMerge := fun _ _ upstreamText => some upstreamText

theorem takeUpstream_keepsUndelimited : takeUpstream.KeepsUndelimited := by
  rintro base localText upstreamText merged done _ _ free
  obtain rfl := Option.some.inj done
  exact free

theorem mergeFrontmatter_clean_keeps_title :
    HeadKeeps plainYaml takeUpstream (some "---\ntitle: a\n---\nx".toList)
      "---\ntitle: a\ntags: t\n---\nx".toList "---\ntitle: b\n---\nx".toList
      "---\ntitle: b\ntags: t\n---\n".toList := by
  have clean : mergeFrontmatter plainYaml takeUpstream
      (some "---\ntitle: a\n---\nx".toList)
      "---\ntitle: a\ntags: t\n---\nx".toList "---\ntitle: b\n---\nx".toList =
        .clean "---\ntitle: b\ntags: t\n---\n".toList ['x'] ['x'] ['x'] := by
    decide +kernel
  exact mergeFrontmatter_clean_keeps takeUpstream_keepsUndelimited clean

/-- A line merge that answers a document start line over the merged entry. -/
def delimitedMerge (merged : Text) : LineMerge :=
  fun _ _ _ => some ("---\n ".toList ++ merged)

/-- The block of a plain entry on a line of its own. -/
def plainBlock (key value : String) (line : Nat) : KeyBlock PlainValue :=
  { key := key.toList, parsedKey := .string key.toList
    text := (key ++ ": " ++ value ++ "\n").toList, value := .string value.toList
    line := line }

/-- Without the condition on the line merge the head ends at the delimiter line
the merge made, and the key both sides changed is not found there. -/
theorem mergeFrontmatter_delimitedMerge_loses :
    mergeFrontmatter plainYaml (delimitedMerge "tags: d\n".toList)
        (some "---\ntags: a\n---\n".toList) "---\ntags: b\n---\n".toList
        "---\ntags: c\n---\n".toList =
      .clean "---\n---\n tags: d\n---\n".toList [] [] [] ∧
    ¬ HeadKeeps plainYaml (delimitedMerge "tags: d\n".toList)
        (some "---\ntags: a\n---\n".toList) "---\ntags: b\n---\n".toList
        "---\ntags: c\n---\n".toList "---\n---\n tags: d\n---\n".toList := by
  refine ⟨by decide +kernel, ?_⟩
  intro kept
  have sides : SidesOf plainYaml (some "---\ntags: a\n---\n".toList)
      "---\ntags: b\n---\n".toList "---\ntags: c\n---\n".toList
      ⟨[], [plainBlock "tags" "a" 2]⟩ ⟨[], [plainBlock "tags" "b" 2]⟩
      ⟨[], [plainBlock "tags" "c" 2]⟩
      ⟨"---\n".toList, "tags: b\n".toList, "---\n".toList, []⟩
      ⟨"---\n".toList, "tags: c\n".toList, "---\n".toList, []⟩ :=
    ⟨by decide +kernel, by decide +kernel, by decide +kernel, by decide +kernel,
      by decide +kernel⟩
  have splitEq : splitFrontmatter "---\n---\n tags: d\n---\n".toList =
      some ⟨"---\n".toList, [], "---\n".toList, " tags: d\n---\n".toList⟩ := by
    decide +kernel
  have cutEq : keyBlocks plainYaml [] = some ⟨[], []⟩ := by decide +kernel
  have outcome := kept.outcome sides splitEq cutEq (.string "tags".toList)
  obtain ⟨b, l, u, r, block, -, -, -, found, -⟩ := outcome.both_changed
    (by decide +kernel) (by decide +kernel) (by decide +kernel)
  simp [find] at found

end Crystalline
